import Mathlib.Data.Nat.Notation
import Mathlib.Order.Defs.Unbundled

/-!
# Writing behind a versioned store

A memory runs ahead of what a store holds of it. Each write under way has a copy of the memory
and the version of the store that it expects, and the store takes a write at that version only.
Where the memory only moves along a preorder, the store is behind the memory, and what a write
that can still be taken would store lies between the two.
-/

namespace Matinier

structure WriteBehind (S : Type*) where
  memory : S
  expected : ℕ
  stored : S
  version : ℕ
  writes : List (S × ℕ)

namespace WriteBehind

variable {S : Type*} {R : S → S → Prop} {w : WriteBehind S} {s : S} {p : S × ℕ}
  {writes : List (S × ℕ)}

/-- The store, the writes it can still take and the memory are in order. -/
structure Ordered (R : S → S → Prop) (w : WriteBehind S) : Prop where
  expected_le : w.expected ≤ w.version
  stored_memory : R w.stored w.memory
  version_le : ∀ p ∈ w.writes, p.2 ≤ w.version
  write_memory : ∀ p ∈ w.writes, R p.1 w.memory
  stored_write : ∀ p ∈ w.writes, p.2 = w.version → R w.stored p.1

namespace Ordered

theorem advance [IsTrans S R] (h : Ordered R w) (hmove : R w.memory s) :
    Ordered R { w with memory := s } where
  expected_le := h.expected_le
  stored_memory := IsTrans.trans _ _ _ h.stored_memory hmove
  version_le := h.version_le
  write_memory p hp := IsTrans.trans _ _ _ (h.write_memory p hp) hmove
  stored_write := h.stored_write

/-- A write is sent, of a copy that is between the store and the memory. -/
theorem write (h : Ordered R w) (hstored : R w.stored s) (hmemory : R s w.memory) :
    Ordered R { w with writes := (s, w.expected) :: w.writes } where
  expected_le := h.expected_le
  stored_memory := h.stored_memory
  version_le := List.forall_mem_cons.mpr ⟨h.expected_le, h.version_le⟩
  write_memory := List.forall_mem_cons.mpr ⟨hmemory, h.write_memory⟩
  stored_write := List.forall_mem_cons.mpr ⟨fun _ => hstored, h.stored_write⟩

theorem drop (h : Ordered R w) (hwrites : ∀ p ∈ writes, p ∈ w.writes) :
    Ordered R { w with writes := writes } where
  expected_le := h.expected_le
  stored_memory := h.stored_memory
  version_le p hp := h.version_le p (hwrites p hp)
  write_memory p hp := h.write_memory p (hwrites p hp)
  stored_write p hp := h.stored_write p (hwrites p hp)

/-- The store takes a write. No other that is under way can be taken any more. -/
theorem take (h : Ordered R w) (hp : p ∈ w.writes) (hwrites : ∀ q ∈ writes, q ∈ w.writes) :
    Ordered R { w with stored := p.1, version := w.version + 1, writes := writes } where
  expected_le := Nat.le_succ_of_le h.expected_le
  stored_memory := h.write_memory p hp
  version_le q hq := Nat.le_succ_of_le (h.version_le q (hwrites q hq))
  write_memory q hq := h.write_memory q (hwrites q hq)
  stored_write q hq heq := by
    have hle := h.version_le q (hwrites q hq)
    have hversion : q.2 = w.version + 1 := heq
    omega

theorem learn {version : ℕ} (h : Ordered R w) (hversion : version ≤ w.version) :
    Ordered R { w with expected := version } where
  expected_le := hversion
  stored_memory := h.stored_memory
  version_le := h.version_le
  write_memory := h.write_memory
  stored_write := h.stored_write

end Ordered

theorem Ordered.restart (stored : S) (version : ℕ) (h : R stored s) :
    Ordered R ⟨s, version, stored, version, []⟩ where
  expected_le := Nat.le_refl version
  stored_memory := h
  version_le _ hp := nomatch hp
  write_memory _ hp := nomatch hp
  stored_write _ hp := nomatch hp

end WriteBehind
end Matinier
