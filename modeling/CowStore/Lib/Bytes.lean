import Mathlib.Data.List.Forall2

/-!
# Overwriting a part of a list

Flat byte arrays: `slice` reads a part and `splice` overwrites one.  `setAll` replaces
elements.
-/

namespace CowStore.Lib

variable {α : Type}

def slice (xs : List α) (offset len : Nat) : List α := (xs.drop offset).take len

def splice (xs : List α) (offset : Nat) (data : List α) : List α :=
  xs.take offset ++ data ++ xs.drop (offset + data.length)

variable {xs : List α} {offset : Nat}

theorem length_slice {len : Nat} (h : offset + len ≤ xs.length) : (slice xs offset len).length = len := by
  simp [slice]
  omega

theorem getElem?_slice (xs : List α) (offset len p : Nat) :
    (slice xs offset len)[p]? = if p < len then xs[offset + p]? else none := by
  rw [slice, List.getElem?_take]
  split
  · rw [List.getElem?_drop]
  · rfl

theorem length_splice {data : List α} (h : offset + data.length ≤ xs.length) :
    (splice xs offset data).length = xs.length := by
  simp [splice]
  omega

theorem getElem?_splice {data : List α} (h : offset + data.length ≤ xs.length) (p : Nat) :
    (splice xs offset data)[p]? =
      if offset ≤ p ∧ p < offset + data.length then data[p - offset]? else xs[p]? := by
  have hlen : (xs.take offset).length = offset := by simp; omega
  rw [splice, List.append_assoc]
  rcases Nat.lt_or_ge p offset with hlt | hge
  · rw [List.getElem?_append_left (by omega), if_neg (by omega), List.getElem?_take, if_pos hlt]
  · rw [List.getElem?_append_right (by omega), hlen]
    rcases Nat.lt_or_ge p (offset + data.length) with hlt | hge'
    · rw [List.getElem?_append_left (by omega), if_pos ⟨hge, hlt⟩]
    · rw [List.getElem?_append_right (by omega), if_neg (by omega), List.getElem?_drop]
      congr 1
      omega

def spliceAll (xs : List α) (writes : List (Nat × List α)) : List α :=
  writes.foldl (fun xs write => splice xs write.1 write.2) xs

theorem spliceAll_append (xs : List α) (writes : List (Nat × List α)) (write : Nat × List α) :
    spliceAll xs (writes ++ [write]) = splice (spliceAll xs writes) write.1 write.2 := by
  rw [spliceAll, List.foldl_append]
  rfl

theorem length_spliceAll {writes : List (Nat × List α)} (h : ∀ w ∈ writes, w.1 + w.2.length ≤ xs.length) :
    (spliceAll xs writes).length = xs.length := by
  induction writes generalizing xs with
  | nil => rfl
  | cons w writes ih =>
    have hlen := length_splice (h w List.mem_cons_self)
    refine (ih fun v hv => ?_).trans hlen
    rw [hlen]
    exact h v (List.mem_cons_of_mem w hv)

/-! ## Elements -/

theorem ext_of_length {ys : List α} {n : Nat} (hx : xs.length = n) (hy : ys.length = n)
    (h : ∀ p, p < n → xs[p]? = ys[p]?) : xs = ys := by
  refine List.ext_getElem? fun p => ?_
  rcases Nat.lt_or_ge p n with hlt | hge
  · exact h p hlt
  · rw [List.getElem?_eq_none (by omega), List.getElem?_eq_none (by omega)]

section

variable {β : Type}

def setAll (xs : List α) (news : List (Nat × α)) : List α :=
  news.foldl (fun xs new => xs.set new.1 new.2) xs

variable {news : List (Nat × α)}

@[simp] theorem length_setAll {xs : List α} : (setAll xs news).length = xs.length := by
  induction news generalizing xs with
  | nil => rfl
  | cons new news ih => exact ih.trans List.length_set

variable {xs : List α}

theorem getElem?_setAll_of_not_mem {k : Nat} (h : ∀ new ∈ news, new.1 ≠ k) :
    (setAll xs news)[k]? = xs[k]? := by
  induction news generalizing xs with
  | nil => rfl
  | cons new news ih =>
    obtain ⟨hnew, hnews⟩ := List.forall_mem_cons.1 h
    exact (ih hnews).trans (List.getElem?_set_ne hnew)

theorem getElem?_setAll_of_mem (hnews : news.Pairwise fun a b => a.1 ≠ b.1) {k : Nat} {a : α}
    (h : (k, a) ∈ news) (hk : k < xs.length) : (setAll xs news)[k]? = some a := by
  induction news generalizing xs with
  | nil => cases h
  | cons new news ih =>
    obtain ⟨hne, hnews⟩ := List.pairwise_cons.1 hnews
    rcases List.mem_cons.1 h with rfl | h
    · refine (getElem?_setAll_of_not_mem fun b hb => (hne b hb).symm).trans ?_
      exact List.getElem?_set_self hk
    · exact ih hnews h (by rwa [List.length_set])

theorem forall₂_set {R : α → β → Prop} {ys : List β} (h : List.Forall₂ R xs ys) {a : α} {b : β}
    (hab : R a b) (k : Nat) : List.Forall₂ R (xs.set k a) (ys.set k b) := by
  induction h generalizing k with
  | nil => exact .nil
  | cons hxy h ih =>
    cases k with
    | zero => exact .cons hab h
    | succ k => exact .cons hxy (ih k)

theorem forall₂_setAll {R : α → β → Prop} {ys : List β} (h : List.Forall₂ R xs ys)
    {us : List (Nat × α)} {vs : List (Nat × β)}
    (huv : List.Forall₂ (fun u v => u.1 = v.1 ∧ R u.2 v.2) us vs) :
    List.Forall₂ R (setAll xs us) (setAll ys vs) := by
  induction huv generalizing xs ys with
  | nil => exact h
  | @cons u v us vs huv _ ih =>
    refine ih ?_
    show List.Forall₂ R (xs.set u.1 u.2) (ys.set v.1 v.2)
    rw [huv.1]
    exact forall₂_set h huv.2 v.1

end

end CowStore.Lib
