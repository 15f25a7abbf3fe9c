import ClassicAlgorithms.Proofs.Table
import Mathlib.Data.List.Nodup

/-!
# Numbers handed out in order

A node that is the k-th of a list has number k there, and a node that is not in
the list has number 0. Both numberings of a traversal are of this kind.
-/
namespace ClassicAlgorithms

/-- The position of `v` counted from 1, or 0 when `v` does not occur. -/
def numberIn (l : List ℕ) (v : ℕ) : ℕ := if v ∈ l then l.idxOf v + 1 else 0

section
variable {l m : List ℕ} {v w : ℕ}

@[simp] theorem numberIn_eq_zero : numberIn l v = 0 ↔ v ∉ l := by
  simp [numberIn]

theorem numberIn_pos : 0 < numberIn l v ↔ v ∈ l := by
  rw [Nat.pos_iff_ne_zero, ne_eq, numberIn_eq_zero, not_not]

theorem mem_of_numberIn_le (hv : v ∈ l) (h : numberIn l v ≤ numberIn l w) : w ∈ l :=
  numberIn_pos.mp (Nat.lt_of_lt_of_le (numberIn_pos.mpr hv) h)

theorem numberIn_le_length (l : List ℕ) (v : ℕ) : numberIn l v ≤ l.length := by
  unfold numberIn
  split_ifs with h
  · exact List.idxOf_lt_length_of_mem h
  · exact Nat.zero_le _

theorem numberIn_append_left (h : v ∈ l) (m : List ℕ) : numberIn (l ++ m) v = numberIn l v := by
  simp [numberIn, h, List.idxOf_append]

theorem numberIn_append_right (h : v ∉ l) (hm : v ∈ m) :
    numberIn (l ++ m) v = l.length + numberIn m v := by
  simp only [numberIn, List.mem_append, hm, or_true, if_true, List.idxOf_append, if_neg h]
  omega

@[simp] theorem numberIn_cons_self (v : ℕ) (l : List ℕ) : numberIn (v :: l) v = 1 := by
  simp [numberIn]

theorem numberIn_append_cons_self (h : v ∉ l) (m : List ℕ) :
    numberIn (l ++ v :: m) v = l.length + 1 := by
  rw [numberIn_append_right h List.mem_cons_self, numberIn_cons_self]

theorem numberIn_concat (hnew : v ∉ l) :
    numberIn (l ++ [v]) = Function.update (numberIn l) v (l.length + 1) := by
  funext w
  by_cases hw : w = v
  · subst hw
    simp [numberIn_append_right hnew]
  · by_cases hl : w ∈ l
    · simp [hw, numberIn_append_left hl]
    · simp [numberIn, hw, hl]

theorem numberIn_inj (hv : v ∈ l) (h : numberIn l v = numberIn l w) : v = w := by
  have hw : w ∈ l := mem_of_numberIn_le hv (Nat.le_of_eq h)
  simp only [numberIn, hv, hw, if_true, Nat.add_right_cancel_iff] at h
  exact (List.idxOf_inj hv).mp h

/-- What stands before something else in a list has the smaller number. -/
theorem numberIn_lt_of_mem (hv : v ∈ l) (hw : w ∉ l) (hm : w ∈ m) :
    numberIn (l ++ m) v < numberIn (l ++ m) w := by
  rw [numberIn_append_left hv, numberIn_append_right hw hm]
  have := numberIn_le_length l v
  have := numberIn_pos.mpr hm
  omega

end

/-- In a list without repetitions, a position and a number are the same but for one. -/
theorem numberIn_getElem {l : List ℕ} (h : l.Nodup) {k : ℕ} (hk : k < l.length) :
    numberIn l l[k] = k + 1 := by
  rw [numberIn, if_pos (List.getElem_mem hk), h.idxOf_getElem k hk]

theorem getElem?_eq_some_iff_numberIn {l : List ℕ} (h : l.Nodup) {k v : ℕ} :
    l[k]? = some v ↔ numberIn l v = k + 1 := by
  constructor
  · intro hv
    obtain ⟨hk, rfl⟩ := List.getElem?_eq_some_iff.mp hv
    exact numberIn_getElem h hk
  · intro hnumber
    have hv : v ∈ l := numberIn_pos.mp (by omega)
    have hk : k < l.length := by
      have := numberIn_le_length l v
      omega
    rw [List.getElem?_eq_getElem hk, Option.some.injEq]
    exact numberIn_inj (List.getElem_mem hk) ((numberIn_getElem h hk).trans hnumber.symm)

/-- A list without repetitions counts upwards. -/
theorem pairwise_numberIn {l : List ℕ} (h : l.Nodup) :
    l.Pairwise fun v w => numberIn l v < numberIn l w := by
  rw [List.pairwise_iff_getElem]
  intro i j hi hj hij
  rw [numberIn_getElem h hi, numberIn_getElem h hj]
  omega

/-- It counts from 1 and leaves no number out. -/
theorem map_numberIn_self {l : List ℕ} (h : l.Nodup) :
    l.map (numberIn l) = List.range' 1 l.length := by
  apply List.ext_getElem
  · simp
  · intro i hi _
    rw [List.getElem_map, List.getElem_range', numberIn_getElem h (by simpa using hi)]
    omega

/-- Two members of the first of two lists compare as they do there. -/
theorem numberIn_append_le_left {l m : List ℕ} {v w : ℕ} (hv : v ∈ l) (hw : w ∈ l) :
    numberIn (l ++ m) v ≤ numberIn (l ++ m) w ↔ numberIn l v ≤ numberIn l w := by
  rw [numberIn_append_left hv, numberIn_append_left hw]

/-- Two members of the second of two lists compare as they do there. -/
theorem numberIn_append_le_right {l m : List ℕ} {v w : ℕ} (hv : v ∉ l) (hw : w ∉ l)
    (hvm : v ∈ m) (hwm : w ∈ m) :
    numberIn (l ++ m) v ≤ numberIn (l ++ m) w ↔ numberIn m v ≤ numberIn m w := by
  rw [numberIn_append_right hv hvm, numberIn_append_right hw hwm, Nat.add_le_add_iff_left]

/-- Two orders run through the same two parts one after the other. Nodes that compare one
way in the first order and the other way in the second belong to the same part, and compare
in it as they do in the whole. -/
theorem numberIn_append_cases {nodes nodes' finishes finishes' : List ℕ} {u v : ℕ}
    (hnodup : (nodes ++ nodes').Nodup) (hfinishes : ∀ w, w ∈ finishes ↔ w ∈ nodes)
    (hfinishes' : ∀ w, w ∈ finishes' ↔ w ∈ nodes') (hu : u ∈ nodes ++ nodes')
    (hv : v ∈ nodes ++ nodes')
    (hdiscovered : numberIn (nodes ++ nodes') u ≤ numberIn (nodes ++ nodes') v)
    (hfinished : numberIn (finishes ++ finishes') v ≤ numberIn (finishes ++ finishes') u) :
    (u ∈ nodes ∧ v ∈ nodes ∧ numberIn nodes u ≤ numberIn nodes v ∧
        numberIn finishes v ≤ numberIn finishes u) ∨
      (u ∈ nodes' ∧ v ∈ nodes' ∧ numberIn nodes' u ≤ numberIn nodes' v ∧
        numberIn finishes' v ≤ numberIn finishes' u) := by
  have hfresh : ∀ w ∈ nodes', w ∉ nodes :=
    fun w hw hmem => (List.nodup_append.mp hnodup).2.2 w hmem w hw rfl
  have hfresh' : ∀ w ∈ nodes', w ∉ finishes := fun w hw h => hfresh w hw ((hfinishes w).mp h)
  rcases List.mem_append.mp hu with hul | hur <;> rcases List.mem_append.mp hv with hvl | hvr
  · rw [numberIn_append_le_left hul hvl] at hdiscovered
    rw [numberIn_append_le_left ((hfinishes v).mpr hvl) ((hfinishes u).mpr hul)] at hfinished
    exact Or.inl ⟨hul, hvl, hdiscovered, hfinished⟩
  · have hlt := numberIn_lt_of_mem ((hfinishes u).mpr hul) (hfresh' v hvr) ((hfinishes' v).mpr hvr)
    exact absurd hfinished (Nat.not_le_of_lt hlt)
  · have hlt := numberIn_lt_of_mem hvl (hfresh u hur) hur
    exact absurd hdiscovered (Nat.not_le_of_lt hlt)
  · rw [numberIn_append_le_right (hfresh u hur) (hfresh v hvr) hur hvr] at hdiscovered
    rw [numberIn_append_le_right (hfresh' v hvr) (hfresh' u hur) ((hfinishes' v).mpr hvr)
      ((hfinishes' u).mpr hur)] at hfinished
    exact Or.inr ⟨hur, hvr, hdiscovered, hfinished⟩

/-- The numbers of a block of a list without repetitions are consecutive. -/
theorem mem_block_iff {before block after : List ℕ} (hnodup : (before ++ (block ++ after)).Nodup)
    {v : ℕ} :
    v ∈ block ↔ before.length < numberIn (before ++ (block ++ after)) v ∧
      numberIn (before ++ (block ++ after)) v ≤ before.length + block.length := by
  have hdisjoint := List.disjoint_of_nodup_append hnodup
  constructor
  · intro hv
    have hbefore : v ∉ before := fun h => hdisjoint h (List.mem_append_left _ hv)
    have hpos := numberIn_pos.mpr hv
    have hle := numberIn_le_length block v
    rw [numberIn_append_right hbefore (List.mem_append_left _ hv), numberIn_append_left hv]
    omega
  · rintro ⟨hlt, hle⟩
    have hbefore : v ∉ before := by
      intro h
      have := numberIn_le_length before v
      rw [numberIn_append_left h] at hlt
      omega
    have hrest : v ∈ block ++ after :=
      (List.mem_append.mp (numberIn_pos.mp (Nat.zero_lt_of_lt hlt))).resolve_left hbefore
    by_contra hblock
    have hafter := (List.mem_append.mp hrest).resolve_left hblock
    have hpos := numberIn_pos.mpr hafter
    rw [numberIn_append_right hbefore hrest, numberIn_append_right hblock hafter] at hle
    omega

section
variable {l : List ℕ} {u v x : ℕ}

theorem numberIn_cons_of_ne (h : x ≠ v) :
    numberIn (x :: l) v = if numberIn l v = 0 then 0 else numberIn l v + 1 := by
  simp only [numberIn_eq_zero, ite_not]
  simp only [numberIn, List.mem_cons, Ne.symm h, false_or, List.idxOf_cons_ne _ h]
  split_ifs <;> rfl

/-- Nothing comes before the first of a list. -/
theorem numberIn_cons_self_le : numberIn (u :: l) u ≤ numberIn (u :: l) v ↔ v ∈ u :: l := by
  rw [numberIn_cons_self, Nat.one_le_iff_ne_zero, ← Nat.pos_iff_ne_zero, numberIn_pos]

theorem numberIn_cons_le_self (h : v ≠ u) :
    numberIn (v :: l) u ≤ numberIn (v :: l) v ↔ u ∉ l := by
  rw [numberIn_cons_self, numberIn_cons_of_ne h, ← numberIn_eq_zero]
  split_ifs <;> omega

theorem numberIn_cons_le_cons (hu : x ≠ u) (hv : x ≠ v) :
    numberIn (x :: l) u ≤ numberIn (x :: l) v ↔ numberIn l u ≤ numberIn l v := by
  rw [numberIn_cons_of_ne hu, numberIn_cons_of_ne hv]
  split_ifs <;> omega

end

theorem mem_filterMap_of_inj {l : List ℕ} {f : ℕ → Option ℕ}
    (hinj : ∀ u v w, f u = some w → f v = some w → u = v) {v v' : ℕ} (hv : f v = some v') :
    v' ∈ l.filterMap f ↔ v ∈ l := by
  rw [List.mem_filterMap]
  constructor
  · rintro ⟨u, hu, hv'⟩
    rwa [hinj v u v' hv hv']
  · exact fun h => ⟨v, h, hv⟩

/-- Leaving elements out and renaming the others apart keeps the order. -/
theorem numberIn_filterMap_le {l : List ℕ} {f : ℕ → Option ℕ}
    (hinj : ∀ u v w, f u = some w → f v = some w → u = v) {u v u' v' : ℕ} (hu : f u = some u')
    (hv : f v = some v') :
    numberIn (l.filterMap f) u' ≤ numberIn (l.filterMap f) v' ↔ numberIn l u ≤ numberIn l v := by
  induction l with
  | nil => simp [numberIn]
  | cons x rest ih =>
    have hu' : u' ∈ rest.filterMap f ↔ u ∈ rest := mem_filterMap_of_inj hinj hu
    by_cases hxu : x = u
    · subst hxu
      rw [List.filterMap_cons_some hu, numberIn_cons_self_le, numberIn_cons_self_le,
        ← List.filterMap_cons_some hu, mem_filterMap_of_inj hinj hv]
    cases hx : f x with
    | none =>
      have hxv : x ≠ v := by
        rintro rfl
        simp [hx] at hv
      rw [List.filterMap_cons_none hx, numberIn_cons_le_cons hxu hxv, ih]
    | some x' =>
      have hne : x' ≠ u' := by
        rintro rfl
        exact hxu (hinj x u x' hx hu)
      rw [List.filterMap_cons_some hx]
      by_cases hxv : x = v
      · subst hxv
        obtain rfl := Option.some.inj (hx.symm.trans hv)
        rw [numberIn_cons_le_self hne, numberIn_cons_le_self hxu, hu']
      · have hne' : x' ≠ v' := by
          rintro rfl
          exact hxv (hinj x v x' hx hv)
        rw [numberIn_cons_le_cons hne hne', numberIn_cons_le_cons hxu hxv, ih]

theorem numberIn_map_add (l : List ℕ) (n v : ℕ) :
    numberIn (l.map (· + n)) (v + n) = numberIn l v := by
  induction l with
  | nil => simp [numberIn]
  | cons x rest ih =>
    rw [List.map_cons]
    by_cases hx : x = v
    · subst hx
      rw [numberIn_cons_self, numberIn_cons_self]
    · rw [numberIn_cons_of_ne hx, numberIn_cons_of_ne (by omega), ih]

/-- The numbers of two orders one after the other, the second with nodes and numbers moved up. -/
theorem map_numberIn_append {n m : ℕ} {l l' : List ℕ} (hl : l.Perm (List.range n))
    (hl' : l'.Perm (List.range m)) :
    (List.range (n + m)).map (numberIn (l ++ l'.map (· + n))) =
      (List.range n).map (numberIn l) ++ ((List.range m).map (numberIn l')).map (· + n) := by
  rw [List.range_add, List.map_append, List.map_map, List.map_map]
  congr 1
  · refine List.map_congr_left fun v hv => ?_
    exact numberIn_append_left (hl.mem_iff.mpr hv) _
  · refine List.map_congr_left fun v hv => ?_
    have hnot : n + v ∉ l := by simp [hl.mem_iff]
    have hmem : n + v ∈ l'.map (· + n) :=
      List.mem_map.mpr ⟨v, hl'.mem_iff.mpr hv, Nat.add_comm v n⟩
    calc
      numberIn (l ++ l'.map (· + n)) (n + v)
      _ = l.length + numberIn (l'.map (· + n)) (n + v) := numberIn_append_right hnot hmem
      _ = n + numberIn l' v := by
        rw [hl.length_eq, List.length_range, Nat.add_comm n v, numberIn_map_add]
      _ = numberIn l' v + n := Nat.add_comm _ _

theorem table_numberIn_concat (n : ℕ) {l : List ℕ} {v : ℕ} (hnew : v ∉ l) :
    (table n (numberIn l)).setIfInBounds v (l.length + 1) = table n (numberIn (l ++ [v])) := by
  rw [table_setIfInBounds, numberIn_concat hnew]

end ClassicAlgorithms
