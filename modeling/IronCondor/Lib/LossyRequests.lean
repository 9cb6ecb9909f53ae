import Mathlib.Data.List.Basic

/-! # Requests over a lossy network

A client asks a stateful server. The network may lose a request before the server sees it, or its
answer after the server served it; the client sees the same failure and asks again, a bounded
number of times. A request that is served only under a precondition which serving it spends is,
when a retry of it succeeds, served exactly once. -/
namespace LossyRequests

variable {σ Q ε α β ω : Type}

/-- What the network does to an attempt. -/
inductive Delivery (ε : Type) where
  | answered
  | failed (reached : Bool) (error : ε)

/-- An attempt, and whether it got what it asked for. -/
structure Exchange (Q : Type) where
  request : Q
  succeeded : Bool

/-- The server, what the network will do to each attempt, and the attempts so far. -/
structure Channel (σ Q ε : Type) where
  server : σ
  deliveries : Nat → Delivery ε
  sent : List (Exchange Q)

/-- One attempt of a request. -/
def Channel.attempt (request : Q) (serve : σ → Except ε α × σ) (w : Channel σ Q ε) :
    Except ε α × Channel σ Q ε :=
  match w.deliveries w.sent.length with
  | .answered =>
    ((serve w.server).1, { w with
      server := (serve w.server).2
      sent := w.sent ++ [⟨request, (serve w.server).1.isOk⟩] })
  | .failed reached error =>
    (.error error, { w with
      server := if reached then (serve w.server).2 else w.server
      sent := w.sent ++ [⟨request, false⟩] })

/-- Up to `n` attempts; the last failure is reported. -/
def retry (call : ω → Except ε α × ω) : Nat → ε → ω → Except ε α × ω
  | 0, last, w => (.error last, w)
  | n + 1, _, w =>
    match call w with
    | (.ok a, w') => (.ok a, w')
    | (.error e, w') => retry call n e w'

section Retry

variable {call : ω → Except ε α × ω} {I : ω → Prop} {n : Nat} {last : ε} {w w' : ω}

/-- What a failed call keeps holds when a call succeeds. -/
theorem retry_ok (hfail : ∀ w e w', I w → call w = (.error e, w') → I w') (hw : I w) {a : α}
    (h : retry call n last w = (.ok a, w')) : ∃ w₁, I w₁ ∧ call w₁ = (.ok a, w') := by
  induction n generalizing last w with
  | zero => cases h
  | succ n ih =>
    unfold retry at h
    split at h
    · cases h
      exact ⟨w, hw, ‹_›⟩
    · exact ih (hfail _ _ _ hw ‹_›) h

/-- What a failed call keeps holds when all calls fail. -/
theorem retry_error (hfail : ∀ w e w', I w → call w = (.error e, w') → I w') (hw : I w) {e : ε}
    (h : retry call n last w = (.error e, w')) : I w' := by
  induction n generalizing last w with
  | zero =>
    cases h
    exact hw
  | succ n ih =>
    unfold retry at h
    split at h
    · cases h
    · exact ih (hfail _ _ _ hw ‹_›) h

end Retry

section Attempts

variable {request : Q} {serve : σ → Except ε α × σ} {w w' : Channel σ Q ε} {n : Nat} {last : ε}

/-- An attempt that succeeds was served and answered. -/
theorem Channel.attempt_ok {a : α} (h : w.attempt request serve = (.ok a, w')) :
    serve w.server = (.ok a, w'.server) ∧ w'.sent = w.sent ++ [⟨request, true⟩] := by
  unfold attempt at h
  split at h
  · obtain ⟨hreply, rfl⟩ := Prod.mk.inj h
    exact ⟨Prod.ext hreply rfl, by simp [hreply, Except.isOk, Except.toBool]⟩
  · cases h

/-- An attempt that fails left the server alone, or was served all the same. -/
theorem Channel.attempt_error {e : ε} (h : w.attempt request serve = (.error e, w')) :
    (w'.server = w.server ∨ w'.server = (serve w.server).2) ∧
      w'.sent = w.sent ++ [⟨request, false⟩] := by
  unfold attempt at h
  split at h
  · obtain ⟨hreply, rfl⟩ := Prod.mk.inj h
    exact ⟨.inr rfl, by simp [hreply, Except.isOk, Except.toBool]⟩
  · rename_i reached error _
    cases h
    refine ⟨?_, rfl⟩
    cases reached with
    | false => exact .inl rfl
    | true => exact .inr rfl

/-- A retried request is attempted at least once and at most `n` times, and only its last attempt
succeeds. -/
theorem Channel.retry_sent {reply : Except ε α}
    (h : retry (Channel.attempt request serve) n last w = (reply, w')) :
    ∃ sent, w'.sent = w.sent ++ sent ∧ (∀ exchange ∈ sent, exchange.request = request) ∧
      sent.countP Exchange.succeeded = reply.isOk.toNat ∧ sent.length ≤ n ∧
      (n ≠ 0 → sent ≠ []) := by
  induction n generalizing last w with
  | zero =>
    cases h
    exact ⟨[], (List.append_nil _).symm, List.forall_mem_nil _, rfl, Nat.le_refl 0, fun h => absurd rfl h⟩
  | succ n ih =>
    unfold retry at h
    split at h
    · rename_i hattempt
      cases h
      refine ⟨_, (Channel.attempt_ok hattempt).2, List.forall_mem_singleton.2 rfl, rfl, ?_, ?_⟩
      · exact Nat.succ_le_succ n.zero_le
      · exact fun _ => List.cons_ne_nil _ _
    · rename_i hattempt
      obtain ⟨sent, hsent, hrequests, hcount, hlength, -⟩ := ih h
      refine ⟨⟨request, false⟩ :: sent, ?_, List.forall_mem_cons.2 ⟨rfl, hrequests⟩, ?_, ?_, ?_⟩
      · rw [hsent, (Channel.attempt_error hattempt).2, List.append_assoc, List.singleton_append]
      · rw [List.countP_cons, hcount]
        rfl
      · exact Nat.succ_le_succ hlength
      · exact fun _ => List.cons_ne_nil _ _

end Attempts

/-- A request that is served only in a state that is ready for it, and that leaves a state that is
not; a refusal leaves what it sees of the state alone. -/
structure Conditional (view : σ → β) (ready : β → Prop) (serve : σ → Except ε α × σ) : Prop where
  refused : ∀ s e s', serve s = (.error e, s') → view s' = view s
  served : ∀ s a s', serve s = (.ok a, s') → ready (view s)
  spent : ∀ s a s', serve s = (.ok a, s') → ¬ ready (view s')

/-- A retried conditional request that succeeds was served exactly once. -/
theorem Conditional.retry_once {view : σ → β} {ready : β → Prop} {serve : σ → Except ε α × σ}
    (hserve : Conditional view ready serve) {request : Q} {w w' : Channel σ Q ε} {n : Nat} {last : ε}
    {a : α} (h : retry (Channel.attempt request serve) n last w = (.ok a, w')) :
    ∃ s, view s = view w.server ∧ serve s = (.ok a, w'.server) := by
  have hfail : ∀ v e v', (view v.server = view w.server ∨ ¬ ready (view v.server)) →
      Channel.attempt request serve v = (.error e, v') →
        view v'.server = view w.server ∨ ¬ ready (view v'.server) := by
    intro v e v' hv hattempt
    rcases (Channel.attempt_error hattempt).1 with hsame | hserved
    · rwa [hsame]
    · rw [hserved]
      rcases hreply : serve v.server with ⟨reply, s'⟩
      cases reply with
      | ok a => exact .inr (hserve.spent _ _ _ hreply)
      | error e' =>
        have hkept := hserve.refused _ _ _ hreply
        rwa [hkept]
  obtain ⟨v, hv, hattempt⟩ := retry_ok hfail (.inl rfl) h
  have hserved := (Channel.attempt_ok hattempt).1
  exact ⟨v.server, hv.resolve_right fun hnot => hnot (hserve.served _ _ _ hserved), hserved⟩

end LossyRequests
