import Pipework.Context

/-!
# What a sorted table answers

Setting a key of a table puts the value under this key and leaves the others as they were
(`lookup_setSorted`). A table in the order of its keys stays so (`Ascends.setSorted`), and then each
of its keys stands in it once, so that it answers what stands in it (`lookup_eq_some_of_nodup`).
-/

namespace Pipework

variable {κ β : Type}

/-- A strict order that tells any two keys apart. -/
structure TellsApart (before : κ → κ → Bool) : Prop where
  irrefl : ∀ a, before a a = false
  trans : ∀ {a b c}, before a b = true → before b c = true → before a c = true
  apart : ∀ {a b}, before a b = false → before b a = false → a = b

/-- The table is in the order of its keys. -/
def Ascends (before : κ → κ → Bool) (table : List (κ × β)) : Prop :=
  table.Pairwise fun a b => before a.1 b.1 = true

variable {before : κ → κ → Bool} {key : κ} {value : β} {table : List (κ × β)}

theorem mem_setSorted {entry : κ × β} (mem : entry ∈ setSorted before key value table) :
    entry ∈ table ∨ entry = (key, value) := by
  induction table with
  | nil => exact .inr (List.mem_singleton.mp mem)
  | cons head table ih =>
    obtain ⟨k, v⟩ := head
    unfold setSorted at mem
    split at mem
    · exact (List.mem_cons.mp mem).symm
    · split at mem
      · rcases List.mem_cons.mp mem with rfl | mem
        · exact .inl List.mem_cons_self
        · exact (ih mem).imp_left (List.mem_cons_of_mem _)
      · exact (List.mem_cons.mp mem).symm.imp_left (List.mem_cons_of_mem _)

theorem Ascends.setSorted (order : TellsApart before) (ascends : Ascends before table) (key : κ)
    (value : β) : Ascends before (setSorted before key value table) := by
  induction table with
  | nil => exact List.pairwise_singleton _ _
  | cons head table ih =>
    obtain ⟨name, v⟩ := head
    obtain ⟨first, rest⟩ := List.pairwise_cons.mp ascends
    unfold Pipework.setSorted
    split
    next ahead =>
      refine List.pairwise_cons.mpr ⟨?_, ascends⟩
      intro entry mem
      rcases List.mem_cons.mp mem with rfl | mem
      · exact ahead
      · exact order.trans ahead (first entry mem)
    next notBefore =>
      split
      next behind =>
        refine List.pairwise_cons.mpr ⟨?_, ih rest⟩
        intro entry mem
        rcases mem_setSorted mem with mem | rfl
        · exact first entry mem
        · exact behind
      next notBehind =>
        obtain rfl : name = key :=
          order.apart (Bool.eq_false_iff.mpr notBehind) (Bool.eq_false_iff.mpr notBefore)
        exact List.pairwise_cons.mpr ⟨first, rest⟩

/-- Of a table of which some keys are kept, these keys have their values and no other has any. -/
theorem lookup_filter [BEq κ] [LawfulBEq κ] (keep : κ → Bool) (key : κ) (table : List (κ × β)) :
    (table.filter fun entry => keep entry.1).lookup key =
      if keep key then table.lookup key else none := by
  induction table with
  | nil => exact (ite_self none).symm
  | cons head table ih =>
    obtain ⟨k, v⟩ := head
    rw [List.filter_cons, List.lookup_cons]
    cases found : key == k with
    | true =>
      obtain rfl := eq_of_beq found
      split
      · rw [List.lookup_cons, found]
      next dropped => rw [ih, if_neg dropped]
    | false =>
      split
      · rw [List.lookup_cons, found, ih]
      · rw [ih]

/-- Where each key stands once, the value of a key is the one it stands with. -/
theorem lookup_eq_some_of_nodup [BEq κ] [LawfulBEq κ] (once : (table.map Prod.fst).Nodup) :
    table.lookup key = some value ↔ (key, value) ∈ table := by
  induction table with
  | nil => exact ⟨nofun, nofun⟩
  | cons head table ih =>
    obtain ⟨k, v⟩ := head
    obtain ⟨new, once⟩ := List.nodup_cons.mp once
    rw [List.lookup_cons]
    cases found : key == k with
    | true =>
      obtain rfl := eq_of_beq found
      constructor
      · rintro ⟨⟩
        exact List.mem_cons_self
      · intro mem
        rcases List.mem_cons.mp mem with here | there
        · cases here
          rfl
        · exact absurd (List.mem_map_of_mem there) new
    | false =>
      refine (ih once).trans ⟨List.mem_cons_of_mem _, fun mem => ?_⟩
      rcases List.mem_cons.mp mem with here | there
      · cases here
        rw [beq_self_eq_true] at found
        cases found
      · exact there

end Pipework
