set_option autoImplicit false

/-!
# Tables

Finite maps from texts to values. The keys stand in strictly increasing order,
so two tables are equal exactly when they answer every look-up alike
(`Table.ext_find?`). A later insertion replaces an earlier one under the same
key (`Table.find?_insert`).
-/

namespace Pratt

/-- A finite map from texts to values. The keys are strictly increasing. -/
structure Table (α : Type) where
  entries : List (String × α)
  sorted : entries.Pairwise fun a b => a.1 < b.1
  deriving DecidableEq, Repr

namespace Table

variable {α : Type}

/-- The table without keys. -/
def empty : Table α := ⟨[], .nil⟩

instance : Inhabited (Table α) := ⟨empty⟩

/-- The value under a key. -/
def find? (table : Table α) (key : String) : Option α := table.entries.lookup key

/-- Puts a value under a key among sorted entries. -/
def insertEntry (key : String) (value : α) : List (String × α) → List (String × α)
  | [] => [(key, value)]
  | entry :: entries =>
    if key < entry.1 then (key, value) :: entry :: entries
    else if key = entry.1 then (key, value) :: entries
    else entry :: insertEntry key value entries

theorem key_of_mem_insertEntry {key : String} {value : α}
    {entries : List (String × α)} {entry : String × α}
    (h : entry ∈ insertEntry key value entries) :
    entry.1 = key ∨ entry ∈ entries := by
  induction entries with
  | nil =>
    simp only [insertEntry, List.mem_singleton] at h
    exact .inl (by rw [h])
  | cons first entries ih =>
    simp only [insertEntry] at h
    split at h
    · rcases List.mem_cons.mp h with rfl | h
      · exact .inl rfl
      · exact .inr h
    · split at h
      · rcases List.mem_cons.mp h with rfl | h
        · exact .inl rfl
        · exact .inr (List.mem_cons_of_mem _ h)
      · rcases List.mem_cons.mp h with rfl | h
        · exact .inr List.mem_cons_self
        · exact (ih h).imp_right (List.mem_cons_of_mem _)

theorem lt_of_not_lt_of_ne {a b : String} (hlt : ¬a < b) (hne : a ≠ b) : b < a := by
  apply String.not_le.mp
  intro hle
  exact hne (String.le_antisymm hle (String.not_lt.mp hlt))

theorem sorted_insertEntry (key : String) (value : α) {entries : List (String × α)}
    (h : entries.Pairwise fun a b => a.1 < b.1) :
    (insertEntry key value entries).Pairwise fun a b => a.1 < b.1 := by
  induction entries with
  | nil => exact List.pairwise_singleton _ _
  | cons first entries ih =>
    obtain ⟨hfirst, hentries⟩ := List.pairwise_cons.mp h
    simp only [insertEntry]
    split
    · next hlt =>
      refine List.pairwise_cons.mpr ⟨fun entry hmem => ?_, h⟩
      rcases List.mem_cons.mp hmem with rfl | hmem
      · exact hlt
      · exact String.lt_trans hlt (hfirst _ hmem)
    · next hlt =>
      split
      · next heq =>
        refine List.pairwise_cons.mpr ⟨fun entry hmem => ?_, hentries⟩
        have := hfirst _ hmem
        rwa [heq]
      · next hne =>
        refine List.pairwise_cons.mpr ⟨fun entry hmem => ?_, ih hentries⟩
        rcases key_of_mem_insertEntry hmem with hkey | hmem
        · rw [hkey]
          exact lt_of_not_lt_of_ne hlt hne
        · exact hfirst _ hmem

/-- Puts a value under a key, in place of the value that was there. -/
def insert (table : Table α) (key : String) (value : α) : Table α :=
  ⟨insertEntry key value table.entries, sorted_insertEntry key value table.sorted⟩

/-! ## Look-ups -/

@[simp] theorem find?_empty (key : String) :
    (empty : Table α).find? key = none :=
  rfl

theorem lookup_cons_eq_ite (key : String) (entry : String × α)
    (entries : List (String × α)) :
    (entry :: entries).lookup key =
      if key = entry.1 then some entry.2 else entries.lookup key := by
  obtain ⟨first, value⟩ := entry
  by_cases h : key = first
  · simp [h]
  · have hbeq : (key == first) = false := by simpa using h
    rw [List.lookup_cons, hbeq, if_neg h]

theorem lookup_insertEntry (key other : String) (value : α)
    (entries : List (String × α)) :
    (insertEntry key value entries).lookup other =
      if other = key then some value else entries.lookup other := by
  induction entries with
  | nil => simp [insertEntry, lookup_cons_eq_ite]
  | cons first entries ih =>
    simp only [insertEntry]
    split
    · simp only [lookup_cons_eq_ite]
    · split
      · next heq =>
        simp only [lookup_cons_eq_ite, ← heq]
        split <;> rfl
      · next hne =>
        simp only [lookup_cons_eq_ite, ih]
        by_cases h : other = key
        · simp [h, hne]
        · simp [h]

/-- A later insertion replaces an earlier one under the same key and touches no
other. -/
theorem find?_insert (table : Table α) (key other : String) (value : α) :
    (table.insert key value).find? other =
      if other = key then some value else table.find? other :=
  lookup_insertEntry key other value table.entries

theorem lookup_eq_none_of_lt {key : String} {entries : List (String × α)}
    (h : ∀ entry ∈ entries, key < entry.1) : entries.lookup key = none := by
  induction entries with
  | nil => rfl
  | cons first entries ih =>
    have hne : key ≠ first.1 := by
      intro heq
      exact String.lt_irrefl _ (heq ▸ h first List.mem_cons_self)
    rw [lookup_cons_eq_ite, if_neg hne]
    exact ih fun entry hmem => h _ (List.mem_cons_of_mem _ hmem)

theorem entries_eq_of_lookup_eq {a b : List (String × α)}
    (ha : a.Pairwise fun x y => x.1 < y.1) (hb : b.Pairwise fun x y => x.1 < y.1)
    (h : ∀ key, a.lookup key = b.lookup key) : a = b := by
  induction a generalizing b with
  | nil =>
    cases b with
    | nil => rfl
    | cons first b => simpa [lookup_cons_eq_ite] using h first.1
  | cons first a ih =>
    cases b with
    | nil => simpa [lookup_cons_eq_ite] using h first.1
    | cons second b =>
      obtain ⟨hfirst, ha⟩ := List.pairwise_cons.mp ha
      obtain ⟨hsecond, hb⟩ := List.pairwise_cons.mp hb
      have hkey : first.1 = second.1 := by
        apply Decidable.byContradiction
        intro hne
        have h₁ := h first.1
        have h₂ := h second.1
        simp only [lookup_cons_eq_ite, if_true, if_neg hne,
          if_neg (Ne.symm hne)] at h₁ h₂
        by_cases hlt : first.1 < second.1
        · rw [lookup_eq_none_of_lt fun entry hmem =>
            String.lt_trans hlt (hsecond _ hmem)] at h₁
          simp at h₁
        · have hlt := lt_of_not_lt_of_ne hlt hne
          rw [lookup_eq_none_of_lt fun entry hmem =>
            String.lt_trans hlt (hfirst _ hmem)] at h₂
          simp at h₂
      have hvalue : first.2 = second.2 := by
        simpa [lookup_cons_eq_ite, hkey] using h first.1
      have hrest : a = b := by
        refine ih ha hb fun key => ?_
        by_cases heq : key = first.1
        · rw [heq, lookup_eq_none_of_lt hfirst,
            lookup_eq_none_of_lt fun entry hmem => hkey ▸ hsecond _ hmem]
        · have hk := h key
          rwa [lookup_cons_eq_ite, lookup_cons_eq_ite, if_neg heq,
            if_neg (hkey ▸ heq)] at hk
      rw [hrest, Prod.ext hkey hvalue]

/-- Tables that answer every look-up alike are equal. -/
theorem ext_find? {a b : Table α}
    (h : ∀ key, a.find? key = b.find? key) : a = b := by
  obtain ⟨entries, ha⟩ := a
  obtain ⟨others, hb⟩ := b
  obtain rfl : entries = others := entries_eq_of_lookup_eq ha hb h
  rfl

end Table

end Pratt
