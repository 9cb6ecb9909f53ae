import Mathlib

/-! # Programs over a shared store

A program asks a store one operation at a time. Programs that keep to disjoint parts of the
store end as they end alone, however their operations interleave. -/

/-- A program: it ends with a value, or asks an operation and goes on with the answer. -/
inductive Prog (Op Ans α : Type) where
  | ret (a : α)
  | op (o : Op) (next : Ans → Prog Op Ans α)

namespace Prog

variable {Op Ans α β κ ν : Type}

def bind : Prog Op Ans α → (α → Prog Op Ans β) → Prog Op Ans β
  | ret a, f => f a
  | op o next, f => op o fun ans => (next ans).bind f

instance : Monad (Prog Op Ans) where
  pure := ret
  bind := bind

/-- The program that asks one operation. -/
def ask (o : Op) : Prog Op Ans Ans := op o ret

/-- Run a list of programs one after the other. -/
def sequence : List (Prog Op Ans α) → Prog Op Ans (List α)
  | [] => ret []
  | p :: ps => p.bind fun a => (sequence ps).bind fun as => ret (a :: as)

/-- Every operation the program may ask satisfies `P`. -/
def All (P : Op → Prop) : Prog Op Ans α → Prop
  | ret _ => True
  | op o next => P o ∧ ∀ ans, (next ans).All P

theorem All.bind {P : Op → Prop} {p : Prog Op Ans α} {f : α → Prog Op Ans β} (hp : p.All P)
    (hf : ∀ a, (f a).All P) : (p.bind f).All P := by
  induction p with
  | ret a => exact hf a
  | op o next ih => exact ⟨hp.1, fun ans => ih ans (hp.2 ans)⟩

theorem All.mono {P Q : Op → Prop} {p : Prog Op Ans α} (hp : p.All P) (h : ∀ o, P o → Q o) :
    p.All Q := by
  induction p with
  | ret a => trivial
  | op o next ih => exact ⟨h o hp.1, fun ans => ih ans (hp.2 ans)⟩

theorem all_sequence {P : Op → Prop} {ps : List (Prog Op Ans α)} (h : ∀ p ∈ ps, p.All P) :
    (sequence ps).All P := by
  induction ps with
  | nil => trivial
  | cons p ps ih =>
    obtain ⟨hp, hps⟩ := List.forall_mem_cons.1 h
    exact hp.bind fun a => (ih hps).bind fun as => trivial

section Store

variable {exec : Op → (κ → ν) → Ans × (κ → ν)} {K K' : Set κ} {s t : κ → ν} {p : Prog Op Ans α}

/-- The program run alone. -/
def run (exec : Op → (κ → ν) → Ans × (κ → ν)) : Prog Op Ans α → (κ → ν) → α × (κ → ν)
  | ret a, s => (a, s)
  | op o next, s => (next (exec o s).1).run exec (exec o s).2

@[simp] theorem run_ret (a : α) : (ret a : Prog Op Ans α).run exec s = (a, s) := rfl

theorem run_op {o : Op} {next : Ans → Prog Op Ans α} :
    (op o next).run exec s = (next (exec o s).1).run exec (exec o s).2 := rfl

theorem run_bind {f : α → Prog Op Ans β} :
    (p.bind f).run exec s = (f (p.run exec s).1).run exec (p.run exec s).2 := by
  induction p generalizing s with
  | ret a => rfl
  | op o next ih => exact ih (exec o s).1

/-- The operation reads and writes only the keys of `K`. -/
structure Local (exec : Op → (κ → ν) → Ans × (κ → ν)) (K : Set κ) (o : Op) : Prop where
  answer : ∀ {s t}, Set.EqOn s t K → (exec o s).1 = (exec o t).1
  write : ∀ {s t}, Set.EqOn s t K → Set.EqOn (exec o s).2 (exec o t).2 K
  frame : ∀ {s k}, k ∉ K → (exec o s).2 k = s k

theorem Local.mono {o : Op} (h : Local exec K o) (hsub : K ⊆ K') : Local exec K' o where
  answer hst := h.answer (hst.mono hsub)
  write {s t} hst k hk := by
    by_cases hin : k ∈ K
    · exact h.write (hst.mono hsub) hin
    · rw [h.frame hin, h.frame hin]
      exact hst hk
  frame hk := h.frame fun hin => hk (hsub hin)

/-- Stores that agree on the keys of a program give the same run. -/
theorem run_congr (hp : p.All (Local exec K)) (hst : Set.EqOn s t K) :
    (p.run exec s).1 = (p.run exec t).1 ∧ Set.EqOn (p.run exec s).2 (p.run exec t).2 K := by
  induction p generalizing s t with
  | ret a => exact ⟨rfl, hst⟩
  | op o next ih =>
    obtain ⟨hlocal, hnext⟩ := hp
    rw [run_op, run_op, hlocal.answer hst]
    exact ih _ (hnext _) (hlocal.write hst)

/-- A program leaves the keys it does not own as they are. -/
theorem run_frame (hp : p.All (Local exec K)) {k : κ} (hk : k ∉ K) :
    (p.run exec s).2 k = s k := by
  induction p generalizing s with
  | ret a => rfl
  | op o next ih =>
    obtain ⟨hlocal, hnext⟩ := hp
    rw [run_op, ih _ (hnext _), hlocal.frame hk]

/-- Programs with disjoint keys, run one after the other, each end as they end alone. -/
theorem run_sequence {ι : Type} {prog : ι → Prog Op Ans α} {keys : ι → Set κ} {is : List ι}
    (hlocal : ∀ i ∈ is, (prog i).All (Local exec (keys i)))
    (hdisjoint : is.Pairwise fun i j => Disjoint (keys i) (keys j)) :
    ((sequence (is.map prog)).run exec s).1 = is.map fun i => ((prog i).run exec s).1 := by
  induction is generalizing s with
  | nil => rfl
  | cons i is ih =>
    obtain ⟨hi, his⟩ := List.forall_mem_cons.1 hlocal
    obtain ⟨hfirst, hrest⟩ := List.pairwise_cons.1 hdisjoint
    rw [List.map_cons, sequence, run_bind, run_bind, run_ret, List.map_cons]
    change _ :: ((sequence (is.map prog)).run exec _).1 = _
    rw [ih his hrest]
    refine congrArg _ (List.map_congr_left fun j hj => (run_congr (his j hj) fun k hk => ?_).1)
    exact run_frame hi fun hin => (hfirst j hj).le_bot ⟨hin, hk⟩

end Store

section Pool

variable {exec : Op → (κ → ν) → Ans × (κ → ν)} {s : κ → ν}

/-- The programs still running, and the store they share. -/
structure Pool (Op Ans α κ ν : Type) where
  programs : List (Prog Op Ans α)
  store : κ → ν

/-- Program `i` asks its next operation; a program that has ended does nothing. -/
def Pool.step (exec : Op → (κ → ν) → Ans × (κ → ν)) (c : Pool Op Ans α κ ν) (i : Nat) :
    Pool Op Ans α κ ν :=
  match c.programs[i]? with
  | some (op o next) => ⟨c.programs.set i (next (exec o c.store).1), (exec o c.store).2⟩
  | _ => c

/-- The programs take steps in the order of a schedule. -/
def Pool.play (exec : Op → (κ → ν) → Ans × (κ → ν)) (c : Pool Op Ans α κ ν)
    (schedule : List Nat) : Pool Op Ans α κ ν :=
  schedule.foldl (Pool.step exec) c

/-- What the programs ended with, once all of them have. -/
def values? : List (Prog Op Ans α) → Option (List α)
  | [] => some []
  | ret a :: ps => (values? ps).map (a :: ·)
  | op _ _ :: _ => none

theorem values?_eq_some {ps : List (Prog Op Ans α)} {values : List α} :
    values? ps = some values ↔ ps = values.map ret := by
  induction ps generalizing values with
  | nil => cases values <;> simp [values?]
  | cons p ps ih =>
    cases p with
    | ret a =>
      rw [values?, Option.map_eq_some_iff]
      constructor
      · rintro ⟨rest, hrest, rfl⟩
        rw [ih.1 hrest, List.map_cons]
      · intro h
        cases values with
        | nil => cases h
        | cons b rest =>
          obtain ⟨hab, hrest⟩ := List.cons.inj h
          cases hab
          exact ⟨rest, ih.2 hrest, rfl⟩
    | op o next => cases values <;> simp [values?]

/-- What the programs of a pool ended with, once all of them have. -/
def Pool.values? (c : Pool Op Ans α κ ν) : Option (List α) := Prog.values? c.programs

/-- Every program of the pool is on the way to the end it reaches alone from `s`. -/
structure Pool.OnTrack (exec : Op → (κ → ν) → Ans × (κ → ν)) (keys : Nat → Set κ)
    (programs : List (Prog Op Ans α)) (s : κ → ν) (c : Pool Op Ans α κ ν) : Prop where
  length : c.programs.length = programs.length
  local_keys : ∀ (i : Nat) (p : Prog Op Ans α), c.programs[i]? = some p → p.All (Local exec (keys i))
  same : ∀ (i : Nat) (p q : Prog Op Ans α), c.programs[i]? = some p → programs[i]? = some q →
    (p.run exec c.store).1 = (q.run exec s).1

theorem Pool.OnTrack.step {keys : Nat → Set κ} {programs : List (Prog Op Ans α)}
    {c : Pool Op Ans α κ ν} (hdisjoint : ∀ i j, i ≠ j → Disjoint (keys i) (keys j))
    (h : c.OnTrack exec keys programs s) (i : Nat) : (c.step exec i).OnTrack exec keys programs s := by
  unfold Pool.step
  split
  · rename_i o next hi
    obtain ⟨hlocal, hnext⟩ := h.local_keys i _ hi
    have hlt := (List.getElem?_eq_some_iff.1 hi).1
    refine ⟨by rw [List.length_set, h.length], fun j p hj => ?_, fun j p q hj hq => ?_⟩
    · by_cases hij : i = j
      · subst hij
        rw [List.getElem?_set_self hlt] at hj
        cases hj
        exact hnext _
      · rw [List.getElem?_set_ne hij] at hj
        exact h.local_keys j p hj
    · by_cases hij : i = j
      · subst hij
        rw [List.getElem?_set_self hlt] at hj
        cases hj
        exact h.same i _ q hi hq
      · rw [List.getElem?_set_ne hij] at hj
        rw [← h.same j p q hj hq]
        refine (run_congr (h.local_keys j p hj) fun k hk => hlocal.frame fun hin => ?_).1
        exact (hdisjoint i j hij).le_bot ⟨hin, hk⟩
  · exact h

theorem Pool.OnTrack.play {keys : Nat → Set κ} {programs : List (Prog Op Ans α)}
    {c : Pool Op Ans α κ ν} (hdisjoint : ∀ i j, i ≠ j → Disjoint (keys i) (keys j))
    (h : c.OnTrack exec keys programs s) (schedule : List Nat) :
    (c.play exec schedule).OnTrack exec keys programs s := by
  induction schedule generalizing c with
  | nil => exact h
  | cons i schedule ih => exact ih (h.step hdisjoint i)

/-- Once all programs have ended, each has ended with what it ends with alone. -/
theorem Pool.OnTrack.values {keys : Nat → Set κ} {programs : List (Prog Op Ans α)}
    {c : Pool Op Ans α κ ν} (h : c.OnTrack exec keys programs s) {values : List α}
    (hvalues : c.values? = some values) : values = programs.map fun p => (p.run exec s).1 := by
  have hended : c.programs = values.map ret := values?_eq_some.1 hvalues
  have hlength : values.length = programs.length := by
    rw [← h.length, hended, List.length_map]
  refine List.ext_getElem (by rw [hlength, List.length_map]) fun i hi hi' => ?_
  have hp : c.programs[i]? = some (ret values[i]) := by
    rw [hended, List.getElem?_map, List.getElem?_eq_getElem hi]
    rfl
  have hsame := h.same i _ _ hp (List.getElem?_eq_getElem (hlength ▸ hi))
  rw [List.getElem_map, ← hsame, run_ret]

/-- However the programs interleave, each ends with what it ends with alone. -/
theorem Pool.play_values {keys : Nat → Set κ} {programs : List (Prog Op Ans α)}
    (hdisjoint : ∀ i j, i ≠ j → Disjoint (keys i) (keys j))
    (hlocal : ∀ (i : Nat) (p : Prog Op Ans α), programs[i]? = some p → p.All (Local exec (keys i)))
    {schedule : List Nat} {values : List α}
    (hvalues : ((⟨programs, s⟩ : Pool Op Ans α κ ν).play exec schedule).values? = some values) :
    values = programs.map fun p => (p.run exec s).1 := by
  refine Pool.OnTrack.values (Pool.OnTrack.play hdisjoint ⟨rfl, hlocal, fun i p q hp hq => ?_⟩ schedule)
    hvalues
  cases hp.symm.trans hq
  rfl

/-- Workers that each run a piece of a list of programs with disjoint keys: every program ends as
it ends alone. -/
theorem Pool.play_pieces {ι : Type} {prog : ι → Prog Op Ans α} {keys : ι → Set κ}
    {pieces : List (List ι)} (hlocal : ∀ i ∈ pieces.flatten, (prog i).All (Local exec (keys i)))
    (hdisjoint : pieces.flatten.Pairwise fun i j => Disjoint (keys i) (keys j))
    {schedule : List Nat} {values : List (List α)}
    (hvalues : ((⟨pieces.map fun piece => sequence (piece.map prog), s⟩ :
      Pool Op Ans (List α) κ ν).play exec schedule).values? = some values) :
    values = pieces.map fun piece => piece.map fun i => ((prog i).run exec s).1 := by
  obtain ⟨hinside, hacross⟩ := List.pairwise_flatten.1 hdisjoint
  have hmine : ∀ piece ∈ pieces, ∀ i ∈ piece, (prog i).All (Local exec (keys i)) :=
    fun piece hpiece i hi => hlocal i (List.mem_flatten.2 ⟨piece, hpiece, hi⟩)
  -- a worker owns the keys of all its programs
  let owned : Nat → Set κ := fun w => ⋃ i ∈ pieces[w]?.getD [], keys i
  have hbefore : ∀ v w, v < w → Disjoint (owned v) (owned w) := by
    intro v w hvw
    refine Set.disjoint_left.2 fun k hv hw => ?_
    obtain ⟨i, hi, hik⟩ := Set.mem_iUnion₂.1 hv
    obtain ⟨j, hj, hjk⟩ := Set.mem_iUnion₂.1 hw
    rcases hpv : pieces[v]? with _ | first
    · rw [hpv] at hi
      cases hi
    rcases hpw : pieces[w]? with _ | second
    · rw [hpw] at hj
      cases hj
    rw [hpv] at hi
    rw [hpw] at hj
    obtain ⟨hv', rfl⟩ := List.getElem?_eq_some_iff.1 hpv
    obtain ⟨hw', rfl⟩ := List.getElem?_eq_some_iff.1 hpw
    exact (List.pairwise_iff_getElem.1 hacross v w hv' hw' hvw i hi j hj).le_bot ⟨hik, hjk⟩
  have howned : ∀ v w, v ≠ w → Disjoint (owned v) (owned w) := fun v w hvw =>
    hvw.lt_or_gt.elim (hbefore v w) fun hwv => (hbefore w v hwv).symm
  rw [Pool.play_values howned (fun w p hp => ?_) hvalues, List.map_map]
  · exact List.map_congr_left fun piece hpiece =>
      run_sequence (hmine piece hpiece) (hinside piece hpiece)
  · rw [List.getElem?_map, Option.map_eq_some_iff] at hp
    obtain ⟨piece, hpiece, rfl⟩ := hp
    refine all_sequence fun p hp => ?_
    obtain ⟨i, hi, rfl⟩ := List.mem_map.1 hp
    refine (hmine piece (List.mem_of_getElem? hpiece) i hi).mono fun o ho => ho.mono ?_
    intro k hk
    refine Set.mem_iUnion₂.2 ⟨i, ?_, hk⟩
    rw [hpiece]
    exact hi

/-- The first program still running can be run to its end. -/
theorem Pool.can_finish (done : List α) (p : Prog Op Ans α) (ps : List (Prog Op Ans α)) :
    ∃ schedule a t, (⟨done.map ret ++ p :: ps, s⟩ : Pool Op Ans α κ ν).play exec schedule =
      ⟨(done ++ [a]).map ret ++ ps, t⟩ := by
  induction p generalizing s with
  | ret a => exact ⟨[], a, s, by simp [Pool.play]⟩
  | op o next ih =>
    obtain ⟨schedule, a, t, hplay⟩ := ih (exec o s).1 (s := (exec o s).2)
    refine ⟨done.length :: schedule, a, t, ?_⟩
    rw [← hplay]
    simp [Pool.play, Pool.step]

/-- Whatever has been played so far, the programs can all be run to their ends. -/
theorem Pool.can_end (c : Pool Op Ans α κ ν) :
    ∃ schedule values, (c.play exec schedule).values? = some values := by
  suffices hrest : ∀ (ps : List (Prog Op Ans α)) (done : List α) (t : κ → ν), ∃ schedule values,
      ((⟨done.map ret ++ ps, t⟩ : Pool Op Ans α κ ν).play exec schedule).values? = some values from
    hrest c.programs [] c.store
  intro ps
  induction ps with
  | nil => exact fun done t => ⟨[], done, values?_eq_some.2 (List.append_nil _)⟩
  | cons p ps ih =>
    intro done t
    obtain ⟨first, a, t', hfirst⟩ : ∃ schedule a t', (⟨done.map ret ++ p :: ps, t⟩ :
        Pool Op Ans α κ ν).play exec schedule = ⟨(done ++ [a]).map ret ++ ps, t'⟩ :=
      Pool.can_finish done p ps
    obtain ⟨rest, values, hvalues⟩ := ih (done ++ [a]) t'
    refine ⟨first ++ rest, values, ?_⟩
    rw [Pool.play, List.foldl_append]
    change (Pool.play exec (Pool.play exec _ first) rest).values? = _
    rw [hfirst]
    exact hvalues

end Pool

end Prog
