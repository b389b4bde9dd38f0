import Mathlib.Data.List.AList
import Mathlib.Data.List.Sort

/-!
# Tables

Finite maps, and the order in which one extends another: the only way in which the
stored objects of a copy-on-write store change.
-/

namespace CowStore.Lib

abbrev Table (K V : Type) := AList fun _ : K => V

namespace Table

variable {K V : Type} [DecidableEq K]

/-- Every entry of `t` is one of `t'`. -/
def Extends (t t' : Table K V) : Prop := ∀ k v, t.lookup k = some v → t'.lookup k = some v

theorem Extends.refl (t : Table K V) : Extends t t := fun _ _ h => h

variable {k : K} {t : Table K V}

theorem Extends.trans {t' t'' : Table K V} (h : Extends t t') (h' : Extends t' t'') :
    Extends t t'' := fun k v hk => h' k v (h k v hk)

theorem extends_insert (v : V) (h : t.lookup k = none) : Extends t (t.insert k v) := by
  intro k' v' hk'
  have hne : k' ≠ k := fun heq => by rw [heq, h] at hk'; cases hk'
  rw [AList.lookup_insert_ne hne]
  exact hk'

section

variable {K : Type} [LinearOrder K]

/-- The keys and their values, in the order of the keys. -/
def rows (t : Table K V) : List (K × V) :=
  (t.entries.insertionSort (fun a b => a.1 ≤ b.1)).map fun row => (row.1, row.2)

def values (t : Table K V) : List V := t.rows.map (·.2)

theorem mem_rows {t : Table K V} {k : K} {v : V} : (k, v) ∈ t.rows ↔ t.lookup k = some v := by
  simp only [rows, List.mem_map, List.mem_insertionSort]
  constructor
  · rintro ⟨⟨k', v'⟩, hmem, heq⟩
    cases heq
    exact AList.mem_lookup_iff.2 hmem
  · exact fun hk => ⟨⟨k, v⟩, AList.mem_lookup_iff.1 hk, rfl⟩

theorem mem_values {t : Table K V} {v : V} : v ∈ t.values ↔ ∃ k, t.lookup k = some v := by
  simp only [values, List.mem_map, Prod.exists, mem_rows, exists_eq_right]

theorem rows_pairwise (t : Table K V) : t.rows.Pairwise fun a b => a.1 < b.1 := by
  have hsorted := List.pairwise_insertionSort (fun a b : Sigma fun _ : K => V => a.1 ≤ b.1) t.entries
  have hperm := List.perm_insertionSort (fun a b : Sigma fun _ : K => V => a.1 ≤ b.1) t.entries
  have hne : (t.entries.insertionSort (fun a b => a.1 ≤ b.1)).Pairwise fun a b => a.1 ≠ b.1 := by
    refine (hperm.pairwise_iff fun h => h.symm).2 ?_
    exact List.pairwise_map.1 t.nodupKeys
  rw [rows, List.pairwise_map]
  exact (hsorted.and hne).imp fun h => lt_of_le_of_ne h.1 h.2

end

theorem mem_iff_lookup : k ∈ t ↔ ∃ v, t.lookup k = some v := by
  rw [← AList.lookup_isSome, Option.isSome_iff_exists]

theorem lookup_insert_eq (t : Table K V) (k k' : K) (v : V) :
    (t.insert k v).lookup k' = if k' = k then some v else t.lookup k' := by
  split
  · next h =>
    subst h
    exact AList.lookup_insert t
  · next h => exact AList.lookup_insert_ne h

theorem lookup_reinsert {v : V} (h : t.lookup k = some v) (k' : K) :
    (t.insert k v).lookup k' = t.lookup k' := by
  rw [lookup_insert_eq]
  split
  · next heq => rw [heq, h]
  · rfl

/-! ## All rows at once -/

def retain (t : Table K V) (p : K → V → Bool) : Table K V :=
  ⟨t.entries.filter fun row => p row.1 row.2, t.nodupKeys.sublist List.filter_sublist⟩

theorem lookup_retain {p : K → V → Bool} {v : V} :
    (t.retain p).lookup k = some v ↔ t.lookup k = some v ∧ p k v = true := by
  have hiff : ∀ {t : Table K V}, t.lookup k = some v ↔ (⟨k, v⟩ : Sigma fun _ : K => V) ∈ t.entries :=
    AList.mem_lookup_iff
  rw [hiff, hiff]
  exact List.mem_filter

def mapValues {W : Type} (t : Table K V) (f : K → V → W) : Table K W :=
  ⟨t.entries.map fun row => ⟨row.1, f row.1 row.2⟩, by
    have h := t.nodupKeys
    unfold List.NodupKeys List.keys at h ⊢
    rw [List.map_map]
    exact h⟩

/-- The values that pass a test are replaced, row by row. -/
theorem lookup_foldl_insert {K : Type} [LinearOrder K] (t : Table K V) (p : V → Prop) [DecidablePred p]
    (g : V → V) (k : K) :
    (t.rows.foldl (fun acc row => if p row.2 then acc.insert row.1 (g row.2) else acc) t).lookup k =
      (t.lookup k).map fun v => if p v then g v else v := by
  -- of the rows that are done and those to come, `acc` has the new values and the old ones
  have hloop : ∀ (rows : List (K × V)) (acc : Table K V), rows.Pairwise (fun a b => a.1 < b.1) →
      (∀ row ∈ rows, acc.lookup row.1 = some row.2) →
      (rows.foldl (fun acc row => if p row.2 then acc.insert row.1 (g row.2) else acc) acc).lookup k =
        if k ∈ rows.map (·.1) then (acc.lookup k).map fun v => if p v then g v else v
        else acc.lookup k := by
    intro rows
    induction rows with
    | nil => exact fun _ _ _ => rfl
    | cons row rows ih =>
      intro acc hsorted hrows
      obtain ⟨hlt, hsorted⟩ := List.pairwise_cons.1 hsorted
      obtain ⟨hrow, hrest⟩ := List.forall_mem_cons.1 hrows
      rw [List.foldl_cons, ih _ hsorted]
      · by_cases hk : k = row.1
        · have hnot : k ∉ rows.map (·.1) := by
            intro hmem
            obtain ⟨later, hlater, heq⟩ := List.mem_map.1 hmem
            exact absurd (hlt later hlater) (by rw [heq, hk]; exact lt_irrefl _)
          have hmem : k ∈ (row :: rows).map (·.1) := List.mem_map.2 ⟨row, List.mem_cons_self, hk.symm⟩
          rw [if_neg hnot, if_pos hmem, hk, hrow, Option.map_some]
          by_cases hp : p row.2
          · rw [if_pos hp, if_pos hp]
            exact AList.lookup_insert _
          · rw [if_neg hp, if_neg hp]
            exact hrow
        · have hacc : (if p row.2 then acc.insert row.1 (g row.2) else acc).lookup k = acc.lookup k := by
            split
            · exact AList.lookup_insert_ne hk
            · rfl
          simp only [hacc, List.map_cons, List.mem_cons, hk, false_or]
      · intro later hlater
        have hne : later.1 ≠ row.1 := (hlt later hlater).ne'
        split
        · rw [AList.lookup_insert_ne hne]
          exact hrest later hlater
        · exact hrest later hlater
  rw [hloop t.rows t t.rows_pairwise fun row hrow => mem_rows.1 hrow]
  split
  · rfl
  · next hnot =>
    cases hk : t.lookup k with
    | none => rfl
    | some v => exact absurd (List.mem_map.2 ⟨(k, v), mem_rows.2 hk, rfl⟩) hnot

def insertAll (t : Table K V) (ks : List K) (v : V) : Table K V :=
  ks.foldl (fun t k => t.insert k v) t

end Table

end CowStore.Lib
