import IronCondor.Execution.LiveOrders
import IronCondor.Execution.Placement

/-! # What reaches the books

The books are only ever changed by submissions and cancels, and by the eviction of whole books.
Every submission takes the next id of its own range. -/
namespace IronCondor.RealisticFill

open Checked ExceptRun OrderBook

section Evolution

variable {B : Type} [Book B ObOrderId]

/-- One operation of the model on a book. -/
def Touches (book book' : B) : Prop :=
  (∃ i side price quantity result, Book.addLimit book i side price quantity = .ok (book', result)) ∨
    ∃ i found, Book.cancel book i = .ok (book', found)

/-- One book, some operations later. -/
def Evolves : B → B → Prop := Relation.ReflTransGen Touches

/-- The books of the contracts in `keep` are still there, some operations later. -/
def Carries (keep : ContractKey → Prop) (books books' : Std.TreeMap ContractKey B) : Prop :=
  ∀ (contract : ContractKey) (book : B), keep contract → books[contract]? = some book →
    ∃ book', books'[contract]? = some book' ∧ Evolves book book'

variable {keep : ContractKey → Prop} {books books₁ books' : Std.TreeMap ContractKey B}
  {contract : ContractKey} {book book' : B}

namespace Carries

theorem refl : Carries keep books books := fun _ book _ hbook => ⟨book, hbook, .refl⟩

theorem trans (h : Carries keep books books₁) (h' : Carries keep books₁ books') :
    Carries keep books books' := by
  intro c book hkeep hbook
  obtain ⟨mid, hmid, hfirst⟩ := h c book hkeep hbook
  obtain ⟨last, hlast, hsecond⟩ := h' c mid hkeep hmid
  exact ⟨last, hlast, hfirst.trans hsecond⟩

theorem weaken {keep' : ContractKey → Prop} (h : Carries keep books books')
    (hkeep : ∀ c, keep' c → keep c) : Carries keep' books books' :=
  fun c book hc hbook => h c book (hkeep c hc) hbook

/-- A book that is written back is the book that was read, some operations later. -/
theorem insert (hread : ∀ old, books[contract]? = some old → Evolves old book') :
    Carries keep books (books.insert contract book') := by
  intro c old _ hold
  rw [Std.TreeMap.getElem?_insert]
  split_ifs with hc
  · refine ⟨book', rfl, hread old ?_⟩
    rw [Std.TreeMap.getElem?_congr hc]
    exact hold
  · exact ⟨old, hold, .refl⟩

end Carries

/-- A leaf is the book of its contract when there is one. -/
theorem leafBook_found (h : leafBook books contract = .ok book) {old : B}
    (hold : books[contract]? = some old) : book = old := by
  unfold leafBook at h
  rw [hold] at h
  cases h
  rfl

theorem cancelFold_evolves {ids : List Nat}
    (h : ids.foldlM (fun (book : B) (seq : Nat) => do
      let (book, _) ← orderBookError (Book.cancel book (ObOrderId.Sequential seq))
      return book) book = .ok book') : Evolves book book' := by
  refine foldlM_invariant (Evolves book) ?_ .refl h
  intro mid seq after hmid hstep
  simp only [bind_ok_iff, orderBookError_eq_ok, pure_ok_iff, Prod.exists] at hstep
  obtain ⟨_, found, hcancel, rfl⟩ := hstep
  exact hmid.tail (.inr ⟨_, found, hcancel⟩)

end Evolution

section Submissions

/-- What the model submits to a book: a seed, or an order of the strategy. -/
inductive Submission where
  | seed (planned : SeedOrder)
  | order (orderId : OrderId) (intent : OrderIntent)

namespace Submission

def contract : Submission → ContractKey
  | seed planned => planned.contract
  | order _ intent => intent.contract

def side : Submission → BookSide
  | seed planned => if planned.isAsk then .Sell else .Buy
  | order _ intent => obSide intent.side

def size : Submission → Nat
  | seed planned => planned.size.value.toNat
  | order _ intent => intent.quantity.value.toNat

/-- The order of the strategy, under its engine id. -/
def order? : Submission → Option (OrderId × OrderIntent)
  | seed _ => none
  | order orderId intent => some (orderId, intent)

end Submission

variable {B : Type} [Book B ObOrderId]

/-- The books that a list of submissions, each under its book id, can leave. -/
inductive History : List (Submission × Nat) → Std.TreeMap ContractKey B → Prop where
  | start : History [] ∅
  | submit {submissions books book book' seq ticks result} (sub : Submission) :
      History submissions books → leafBook books sub.contract = .ok book →
      Book.addLimit book (.Sequential seq) sub.side ticks sub.size = .ok (book', result) →
      History (submissions ++ [(sub, seq)]) (books.insert sub.contract book')
  | cancel {submissions books contract book book' i found} : History submissions books →
      books[contract]? = some book → Book.cancel book i = .ok (book', found) →
      History submissions (books.insert contract book')
  | evict {submissions books} (keep : ContractKey → Bool) : History submissions books →
      History submissions (OrderedMap.retain keep books)
  | congr {submissions books books'} : History submissions books →
      (∀ contract : ContractKey, books[contract]? = books'[contract]?) → History submissions books'

/-- The ids are minted in two disjoint ranges and none twice, and the orders of the strategy are
`orders`, in their order. -/
structure Minted (orders : List (OrderId × OrderIntent)) (submissions : List (Submission × Nat))
    (nextStrategyId nextMakerId : Nat) : Prop where
  orders_eq : submissions.filterMap (fun entry => entry.1.order?) = orders
  strategy : ∀ entry ∈ submissions, entry.1.order? ≠ none →
    strategyIdBase ≤ entry.2 ∧ entry.2 < nextStrategyId
  makers : ∀ entry ∈ submissions, entry.1.order? = none →
    makerIdBase ≤ entry.2 ∧ entry.2 < nextMakerId
  ranges : strategyIdBase ≤ nextStrategyId ∧ nextStrategyId ≤ makerIdBase ∧
    makerIdBase ≤ nextMakerId
  distinct : (submissions.map Prod.snd).Nodup

namespace Minted

variable {orders : List (OrderId × OrderIntent)} {submissions : List (Submission × Nat)}
  {nextStrategyId nextMakerId : Nat}

theorem start : Minted [] [] strategyIdBase makerIdBase where
  orders_eq := rfl
  strategy := by simp
  makers := by simp
  ranges := by decide
  distinct := by simp

/-- A seed takes the next id of the upper range. -/
theorem seed (h : Minted orders submissions nextStrategyId nextMakerId) (planned : SeedOrder) :
    Minted orders (submissions ++ [(.seed planned, nextMakerId)]) nextStrategyId
      (nextMakerId + 1) where
  orders_eq := by
    rw [List.filterMap_append, h.orders_eq]
    simp [Submission.order?]
  strategy := by
    refine List.forall_mem_append.2 ⟨h.strategy, ?_⟩
    simp [Submission.order?]
  makers := by
    refine List.forall_mem_append.2 ⟨fun entry hentry hseed => ?_, ?_⟩
    · have hold := h.makers entry hentry hseed
      omega
    · have hrange := h.ranges.2.2
      simp only [List.forall_mem_singleton]
      omega
  ranges := by
    have hranges := h.ranges
    omega
  distinct := by
    rw [List.map_append, List.nodup_append]
    refine ⟨h.distinct, by simp, ?_⟩
    rintro _ hold _ hnew rfl
    obtain ⟨entry, hentry, heq⟩ := List.mem_map.1 hold
    have hid : entry.2 = nextMakerId := heq.trans (by simpa using hnew)
    have hranges := h.ranges
    by_cases hkind : entry.1.order? = none
    · have hmaker := h.makers entry hentry hkind
      omega
    · have hstrategy := h.strategy entry hentry hkind
      omega

/-- An order of the strategy takes the next id of the lower range. -/
theorem order (h : Minted orders submissions nextStrategyId nextMakerId)
    (hlt : nextStrategyId < makerIdBase) (orderId : OrderId) (intent : OrderIntent) :
    Minted (orders ++ [(orderId, intent)])
      (submissions ++ [(.order orderId intent, nextStrategyId)]) (nextStrategyId + 1)
      nextMakerId where
  orders_eq := by
    rw [List.filterMap_append, h.orders_eq]
    simp [Submission.order?]
  strategy := by
    refine List.forall_mem_append.2 ⟨fun entry hentry horder => ?_, ?_⟩
    · have hold := h.strategy entry hentry horder
      omega
    · have hrange := h.ranges.1
      simp only [List.forall_mem_singleton]
      omega
  makers := by
    refine List.forall_mem_append.2 ⟨h.makers, ?_⟩
    simp [Submission.order?]
  ranges := by
    have hranges := h.ranges
    omega
  distinct := by
    rw [List.map_append, List.nodup_append]
    refine ⟨h.distinct, by simp, ?_⟩
    rintro _ hold _ hnew rfl
    obtain ⟨entry, hentry, heq⟩ := List.mem_map.1 hold
    have hid : entry.2 = nextStrategyId := heq.trans (by simpa using hnew)
    by_cases hkind : entry.1.order? = none
    · have hmaker := h.makers entry hentry hkind
      omega
    · have hstrategy := h.strategy entry hentry hkind
      omega

end Minted

end Submissions

end IronCondor.RealisticFill
