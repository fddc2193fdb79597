import Mathlib.Data.Multiset.AddSub
import Mathlib.Data.Multiset.MapFold
import Mathlib.Algebra.Order.Group.Multiset
import Mathlib.Tactic.Abel

/-!
# Ledgers of requests

A server keeps the messages of its open requests in a few buffers. A `Ledger`
says which request is in which buffer, which buffers are in use, and which
requests are closed. It is `Balanced` when every received request is either
closed or in exactly one buffer:

* `Balanced.keep`, `Balanced.close`, `Balanced.receive`: the entries that keep it so;
* `Balanced.count_eq_one`: no request is lost, and none is in two places.
-/

namespace Corehost

/-- Buffers `β` for requests `ι`. -/
structure Ledger (β ι : Type*) where
  holder : β → ι
  buffers : Multiset β
  closed : Multiset ι
  received : Multiset ι

namespace Ledger

variable {β ι : Type*} {l l' : Ledger β ι} {b : β}

/-- The places of the requests. -/
def places (l : Ledger β ι) : Multiset ι := l.closed + l.buffers.map l.holder

structure Balanced (l : Ledger β ι) : Prop where
  nodup : l.buffers.Nodup
  places : l.places = l.received

/-- Buffers change their role. -/
theorem Balanced.keep (h : l.Balanced) (hb : l'.buffers = l.buffers) (hh : ∀ b ∈ l.buffers, l'.holder b = l.holder b)
    (hc : l'.closed = l.closed) (hr : l'.received = l.received) : l'.Balanced := by
  refine ⟨hb ▸ h.nodup, ?_⟩
  have hmap : l'.buffers.map l'.holder = l.buffers.map l.holder := by
    rw [hb]
    exact Multiset.map_congr rfl hh
  rw [hr, ← h.places, Ledger.places, Ledger.places, hc, hmap]

/-- The request in one of the buffers is closed. -/
theorem Balanced.close (h : l.Balanced) (hb : l.buffers = l'.buffers + {b}) (hh : ∀ b ∈ l.buffers, l'.holder b = l.holder b)
    (hc : l'.closed = l.closed + {l.holder b}) (hr : l'.received = l.received) : l'.Balanced := by
  have hmap : l'.buffers.map l'.holder = l'.buffers.map l.holder := by
    refine Multiset.map_congr rfl fun b' hmem => hh b' ?_
    rw [hb]
    exact Multiset.mem_add.mpr (.inl hmem)
  have hnodup := h.nodup
  rw [hb] at hnodup
  refine ⟨(Multiset.nodup_add.mp hnodup).1, ?_⟩
  rw [hr, ← h.places, Ledger.places, Ledger.places, hb, hmap, hc, Multiset.map_add, Multiset.map_singleton]
  abel

/-- A new request goes to a buffer that is not in use. -/
theorem Balanced.receive (h : l.Balanced) (hn : b ∉ l.buffers) (hb : l'.buffers = l.buffers + {b})
    (hh : ∀ b ∈ l.buffers, l'.holder b = l.holder b) (hc : l'.closed = l.closed)
    (hr : l'.received = l.received + {l'.holder b}) : l'.Balanced := by
  refine ⟨?_, ?_⟩
  · rw [hb]
    exact Multiset.nodup_add.mpr ⟨h.nodup, Multiset.nodup_singleton b, Multiset.disjoint_singleton.mpr hn⟩
  · rw [hr, ← h.places, Ledger.places, Ledger.places, hb, hc, Multiset.map_add, Multiset.map_singleton,
      Multiset.map_congr rfl hh]
    abel

theorem Balanced.count_eq_one [DecidableEq ι] (h : l.Balanced) (hn : l.received.Nodup) {i : ι} (hi : i ∈ l.received) :
    l.places.count i = 1 := by
  rw [h.places]
  exact Multiset.count_eq_one_of_mem hn hi

/-- What is closed is in no buffer. -/
theorem Balanced.not_mem_of_closed (h : l.Balanced) (hn : l.received.Nodup) {i : ι} (hi : i ∈ l.closed) :
    ∀ b ∈ l.buffers, l.holder b ≠ i := by
  rintro b hb rfl
  rw [← h.places, Ledger.places] at hn
  exact (Multiset.disjoint_left.mp (Multiset.nodup_add.mp hn).2.2) hi (Multiset.mem_map_of_mem l.holder hb)

end Ledger

end Corehost
