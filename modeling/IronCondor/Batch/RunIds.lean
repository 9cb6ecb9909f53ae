import IronCondor.Batch.SmallBatch

/-! # The run identities of a batch

Over a file feed the runs of a batch differ in their seeds alone, and a run identity is a hash
of the seed: two runs share an identity exactly when they share a seed. The generator derives
distinct seeds, and takes a pinned seed as it is. -/
namespace IronCondor

open Checked

/-- The seed of run `k`: the pinned one, or the one derived for its index. -/
def seedAt [Sha256] (baseSeed : Bounded u64) (index : Bounded u32) (override : ConfigOverride) :
    Bounded u64 :=
  override.seed.getD (childSeed baseSeed index)

section Seeds

variable [Sha256] [SessionWalk] {params : ScenarioParams} {base : BacktestConfig}
  {configs : List BacktestConfig}

/-- An accepted batch over a file feed: run `k` is the base under the seed of its override. -/
theorem expand_file (hfile : ∀ spec, base.dataSource ≠ .Simulator spec)
    (h : expand params base = .ok configs) :
    configs.length = params.runs.length ∧
      ∀ (k : Nat) (override : ConfigOverride), params.runs[k]? = some override →
        ∃ i : Bounded u32, i.value = k ∧ configs[k]? = some { base with
          seed := seedAt params.baseSeed i override } := by
  obtain ⟨-, hlength, hall⟩ := expand_eq_ok h
  refine ⟨hlength, fun k override hk => ?_⟩
  obtain ⟨i, config, hi, hconfig, hderive⟩ := hall k override hk
  rw [deriveConfig_file hfile] at hderive
  cases hderive
  exact ⟨i, hi, hconfig⟩

/-- The runs of a batch have distinct seeds exactly when its pinned seeds are distinct. -/
theorem seeds_nodup (hfile : ∀ spec, base.dataSource ≠ .Simulator spec)
    (h : expand params base = .ok configs)
    (hchild : ∀ i j : Bounded u32, i.value < configs.length → j.value < configs.length →
      childSeed params.baseSeed i = childSeed params.baseSeed j → i = j)
    (hpinned : ∀ override ∈ params.runs, ∀ seed, override.seed = some seed →
      ∀ i : Bounded u32, i.value < configs.length → seed ≠ childSeed params.baseSeed i) :
    (configs.map BacktestConfig.seed).Nodup ↔
      (params.runs.filterMap ConfigOverride.seed).Nodup := by
  obtain ⟨hlength, hall⟩ := expand_file hfile h
  rw [List.nodup_iff_pairwise_ne, List.nodup_iff_pairwise_ne, List.pairwise_filterMap,
    List.pairwise_iff_getElem, List.pairwise_iff_getElem]
  have hseed : ∀ (k : Nat) (hk : k < params.runs.length) (hk' : k < (configs.map
      BacktestConfig.seed).length), ∃ i : Bounded u32, i.value = k ∧
      (configs.map BacktestConfig.seed)[k] = seedAt params.baseSeed i params.runs[k] := by
    intro k hk hk'
    obtain ⟨i, hi, hconfig⟩ := hall k _ (List.getElem?_eq_getElem hk)
    refine ⟨i, hi, ?_⟩
    rw [List.getElem_map, (List.getElem?_eq_some_iff.1 hconfig).2]
  constructor
  · intro hseeds k l hk hl hlt a ha b hb
    obtain ⟨i, -, hi⟩ := hseed k hk (by simpa [hlength] using hk)
    obtain ⟨j, -, hj⟩ := hseed l hl (by simpa [hlength] using hl)
    have hne := hseeds k l (by simpa [hlength] using hk) (by simpa [hlength] using hl) hlt
    rw [hi, hj, seedAt, seedAt, ha, hb] at hne
    exact hne
  · intro hpins k l hk' hl' hlt
    have hk : k < params.runs.length := by simpa [hlength] using hk'
    have hl : l < params.runs.length := by simpa [hlength] using hl'
    obtain ⟨i, hik, hi⟩ := hseed k hk hk'
    obtain ⟨j, hjl, hj⟩ := hseed l hl hl'
    have hiconfigs : i.value < configs.length := by omega
    have hjconfigs : j.value < configs.length := by omega
    rw [hi, hj]
    unfold seedAt
    rcases ha : params.runs[k].seed with _ | a <;> rcases hb : params.runs[l].seed with _ | b
    · intro hsame
      have := hchild i j hiconfigs hjconfigs hsame
      subst this
      omega
    · exact fun hsame => hpinned _ (List.getElem_mem hl) b hb i hiconfigs hsame.symm
    · exact hpinned _ (List.getElem_mem hk) a ha j hjconfigs
    · exact hpins k l hk hl hlt a ha b hb

/-- The pinned seeds of the runs are those of the sweep: a batch with replicates pins none. -/
theorem pins_nodup (h : expand params base = .ok configs) :
    (params.runs.filterMap ConfigOverride.seed).Nodup ↔
      params.count.value = 0 ∨ (params.sweep.filterMap ConfigOverride.seed).Nodup := by
  obtain ⟨hnone, -⟩ := expand_eq_ok h
  have hcount := params.count.nonneg
  have hsweep : params.overrides.filterMap ConfigOverride.seed =
      params.sweep.filterMap ConfigOverride.seed := by
    unfold ScenarioParams.overrides
    split_ifs with hempty
    · rw [List.isEmpty_iff.1 hempty]
      rfl
    · rfl
  unfold ScenarioParams.runs
  rcases lt_trichotomy params.count.value 1 with hlt | hone | hmany
  · have hzero : params.count.value = 0 := by omega
    have hruns : params.overrides.flatMap (List.replicate params.count.value.toNat) = [] := by
      rw [List.flatMap_eq_nil_iff]
      intro override hin
      rw [hzero]
      rfl
    rw [hruns]
    simp [hzero]
  · have hruns : params.overrides.flatMap (List.replicate params.count.value.toNat) =
        params.overrides := by
      rw [hone]
      exact List.flatMap_singleton' params.overrides
    rw [hruns, hsweep, hone]
    simp
  · have hpins : params.sweep.filterMap ConfigOverride.seed = [] := by
      rw [← hsweep, List.filterMap_eq_nil_iff]
      exact hnone hmany
    have hruns : (params.overrides.flatMap (List.replicate params.count.value.toNat)).filterMap
        ConfigOverride.seed = [] := by
      rw [List.filterMap_eq_nil_iff]
      intro override hin
      obtain ⟨origin, horigin, hrep⟩ := List.mem_flatMap.1 hin
      exact List.eq_of_mem_replicate hrep ▸ hnone hmany origin horigin
    rw [hruns, hpins]
    simp

/-- Over a file feed every run of a batch is the base under a seed of its own. -/
theorem config_of_mem (hfile : ∀ spec, base.dataSource ≠ .Simulator spec)
    (h : expand params base = .ok configs) {config : BacktestConfig} (hin : config ∈ configs) :
    config = { base with
      seed := config.seed } := by
  obtain ⟨hlength, hall⟩ := expand_file hfile h
  obtain ⟨k, hk, hget⟩ := List.mem_iff_getElem.1 hin
  obtain ⟨i, -, hconfig⟩ := hall k _ (List.getElem?_eq_getElem (hlength ▸ hk))
  rw [List.getElem?_eq_getElem hk, hget] at hconfig
  rw [Option.some.inj hconfig]

/-- Over a file feed two runs of one batch that share a seed share their configuration. -/
theorem config_eq_of_seed (hfile : ∀ spec, base.dataSource ≠ .Simulator spec)
    (h : expand params base = .ok configs) {config config' : BacktestConfig}
    (hin : config ∈ configs) (hin' : config' ∈ configs) (hseed : config.seed = config'.seed) :
    config = config' := by
  rw [config_of_mem hfile h hin, config_of_mem hfile h hin', hseed]

variable [SerdeJson RunIdPreimage] (strategy : StrategySpec)
  (tapeIdentity codeVersion lockfile : String)

/-- Where neither the encoding nor the hash collides, runs share an identity exactly when they
share a seed. -/
theorem runIdOf_eq_iff (hfile : ∀ spec, base.dataSource ≠ .Simulator spec)
    (h : expand params base = .ok configs)
    (htotal : ∀ config ∈ configs, ∃ bytes, SerdeJson.toVec
      (preimageOf strategy tapeIdentity codeVersion lockfile config) = .ok bytes)
    (hjson : ∀ config ∈ configs, ∀ config' ∈ configs,
      SerdeJson.toVec (preimageOf strategy tapeIdentity codeVersion lockfile config) =
        SerdeJson.toVec (preimageOf strategy tapeIdentity codeVersion lockfile config') →
      preimageOf strategy tapeIdentity codeVersion lockfile config =
        preimageOf strategy tapeIdentity codeVersion lockfile config')
    (hsha : ∀ config ∈ configs, ∀ config' ∈ configs, ∀ bytes bytes',
      SerdeJson.toVec (preimageOf strategy tapeIdentity codeVersion lockfile config) = .ok bytes →
      SerdeJson.toVec (preimageOf strategy tapeIdentity codeVersion lockfile config') =
        .ok bytes' →
      Sha256.digest bytes = Sha256.digest bytes' → bytes = bytes')
    {config config' : BacktestConfig} (hin : config ∈ configs) (hin' : config' ∈ configs) :
    runIdOf strategy tapeIdentity codeVersion lockfile config =
        runIdOf strategy tapeIdentity codeVersion lockfile config' ↔
      config.seed = config'.seed := by
  constructor
  · intro hsame
    obtain ⟨bytes, hbytes⟩ := htotal config hin
    obtain ⟨bytes', hbytes'⟩ := htotal config' hin'
    rw [runIdOf, runIdOf, RunId.derive_eq_ok.2 ⟨bytes, hbytes, rfl⟩,
      RunId.derive_eq_ok.2 ⟨bytes', hbytes', rfl⟩] at hsame
    have hdigest := toHex_injective (congrArg RunId.hex (Except.ok.inj hsame))
    obtain rfl := hsha config hin config' hin' bytes bytes' hbytes hbytes' hdigest
    exact congrArg RunIdPreimage.seed (hjson config hin config' hin' (hbytes.trans hbytes'.symm))
  · intro hseed
    rw [config_eq_of_seed hfile h hin hin' hseed]

/-- Run identities over whole batches: the runs of an accepted batch over a file feed have
pairwise distinct identities exactly when no two overrides of its sweep pin one seed. -/
theorem batch_run_ids_distinct (hfile : ∀ spec, base.dataSource ≠ .Simulator spec)
    (h : expand params base = .ok configs)
    (hchild : ∀ i j : Bounded u32, i.value < configs.length → j.value < configs.length →
      childSeed params.baseSeed i = childSeed params.baseSeed j → i = j)
    (hpinned : ∀ override ∈ params.sweep, ∀ seed, override.seed = some seed →
      ∀ i : Bounded u32, i.value < configs.length → seed ≠ childSeed params.baseSeed i)
    (htotal : ∀ config ∈ configs, ∃ bytes, SerdeJson.toVec
      (preimageOf strategy tapeIdentity codeVersion lockfile config) = .ok bytes)
    (hjson : ∀ config ∈ configs, ∀ config' ∈ configs,
      SerdeJson.toVec (preimageOf strategy tapeIdentity codeVersion lockfile config) =
        SerdeJson.toVec (preimageOf strategy tapeIdentity codeVersion lockfile config') →
      preimageOf strategy tapeIdentity codeVersion lockfile config =
        preimageOf strategy tapeIdentity codeVersion lockfile config')
    (hsha : ∀ config ∈ configs, ∀ config' ∈ configs, ∀ bytes bytes',
      SerdeJson.toVec (preimageOf strategy tapeIdentity codeVersion lockfile config) = .ok bytes →
      SerdeJson.toVec (preimageOf strategy tapeIdentity codeVersion lockfile config') =
        .ok bytes' →
      Sha256.digest bytes = Sha256.digest bytes' → bytes = bytes') :
    (configs.map (runIdOf strategy tapeIdentity codeVersion lockfile)).Nodup ↔
      params.count.value = 0 ∨ (params.sweep.filterMap ConfigOverride.seed).Nodup := by
  have hruns : ∀ override ∈ params.runs, ∀ seed, override.seed = some seed →
      ∀ i : Bounded u32, i.value < configs.length → seed ≠ childSeed params.baseSeed i :=
    fun override hin seed hseed =>
      hpinned override (ScenarioParams.mem_sweep_of_pinned hin hseed) seed hseed
  have hids : (configs.map (runIdOf strategy tapeIdentity codeVersion lockfile)).Nodup ↔
      (configs.map BacktestConfig.seed).Nodup := by
    rw [List.nodup_iff_pairwise_ne, List.nodup_iff_pairwise_ne, List.pairwise_map,
      List.pairwise_map]
    exact List.Pairwise.iff_of_mem fun hin hin' => not_congr
      (runIdOf_eq_iff strategy tapeIdentity codeVersion lockfile hfile h htotal hjson hsha hin hin')
  rw [hids, seeds_nodup hfile h hchild hruns, pins_nodup h]

end Seeds

section Pinned

open SmallBatch

theorem lt_two_cases {i : Bounded u32} (h : i.value < 2) :
    i = ⟨0, by decide⟩ ∨ i = ⟨1, by decide⟩ := by
  have hnonneg := i.nonneg
  rcases (by omega : i.value = 0 ∨ i.value = 1) with hi | hi
  · exact .inl (Bounded.ext hi)
  · exact .inr (Bounded.ext hi)

/-- What holds of the two runs in either order holds of any two. -/
theorem forall_pair {α : Type} {a b : α} {p : α → α → Prop} (hrefl : ∀ x, p x x) (hab : p a b)
    (hba : p b a) : ∀ x ∈ [a, b], ∀ y ∈ [a, b], p x y := by
  intro x hx y hy
  simp only [List.mem_cons, List.not_mem_nil, or_false] at hx hy
  rcases hx with rfl | rfl <;> rcases hy with rfl | rfl
  · exact hrefl _
  · exact hab
  · exact hba
  · exact hrefl _

/-- Two texts with distinct digests do not collide. -/
theorem no_collision_pair {α : Type} {a b : α} {text : α → Except String (List UInt8)}
    (h : (text a).map Sha256.digest ≠ (text b).map Sha256.digest) :
    ∀ x ∈ [a, b], ∀ y ∈ [a, b], ∀ bytes bytes', text x = .ok bytes → text y = .ok bytes' →
      Sha256.digest bytes = Sha256.digest bytes' → bytes = bytes' := by
  refine forall_pair (fun x bytes bytes' hbytes hbytes' _ =>
    Except.ok.inj (hbytes.symm.trans hbytes')) ?_ ?_
  · intro bytes bytes' hbytes hbytes' hdigest
    rw [hbytes, hbytes'] at h
    exact absurd (congrArg Except.ok hdigest) h
  · intro bytes bytes' hbytes hbytes' hdigest
    rw [hbytes, hbytes'] at h
    exact absurd (congrArg Except.ok hdigest.symm) h

/-- Two overrides that pin different seeds. -/
theorem batch_run_ids_distinct_pinned :
    ([seeded one, seeded two].map smallRunId).Nodup := by
  have hdigests := digests_ne
  have htexts : SerdeJson.toVec (smallPreimage (seeded one)) ≠
      SerdeJson.toVec (smallPreimage (seeded two)) :=
    fun hsame => hdigests (congrArg (Except.map Sha256.digest) hsame)
  have htotal := toVec_small
  unfold smallPreimage at hdigests htexts htotal
  refine (batch_run_ids_distinct strategy (toHex (Sha256.digest tapeBytes)) Build.codeVersion
    lockfileSha256 (fun spec hspec => by cases hspec) expand_pinned ?_ ?_ ?_
    (forall_pair (fun _ _ => rfl) (fun hsame => absurd hsame htexts)
      (fun hsame => absurd hsame.symm htexts)) (no_collision_pair hdigests)).2
    (.inr (by decide))
  · intro i j hi hj hsame
    rcases lt_two_cases hi with rfl | rfl <;> rcases lt_two_cases hj with rfl | rfl
    · rfl
    · exact absurd hsame (by decide +kernel)
    · exact absurd hsame (by decide +kernel)
    · rfl
  · intro override hin seed hseed i hi
    simp only [pinned, List.map_cons, List.map_nil, List.mem_cons, List.not_mem_nil, or_false] at hin
    rcases hin with rfl | rfl <;> cases hseed <;> rcases lt_two_cases hi with rfl | rfl <;>
      decide +kernel
  · intro config hin
    simp only [List.mem_cons, List.not_mem_nil, or_false] at hin
    rcases hin with rfl | rfl
    · exact htotal one
    · exact htotal two

/-- Two overrides that pin one seed are accepted, and their runs share an identity; the seeds
derived for the two runs are distinct, and not the pinned one. -/
theorem batch_run_ids_twice :
    ∃ id, expand (pinned [one, one]) (config "") = .ok [seeded one, seeded one] ∧
      smallRunId (seeded one) = .ok id ∧
      [one, childSeed ⟨7, by decide⟩ ⟨0, by decide⟩,
        childSeed ⟨7, by decide⟩ ⟨1, by decide⟩].Nodup := by
  obtain ⟨id, hid⟩ := smallRunId_seeded one
  exact ⟨id, by decide +kernel, hid, by decide +kernel⟩

end Pinned

end IronCondor
