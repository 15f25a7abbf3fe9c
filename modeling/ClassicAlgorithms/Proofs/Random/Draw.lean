import ClassicAlgorithms.Random.Draw
import Mathlib.Data.List.Forall2

/-!
# What a draw yields

A source may answer a draw with any number below the bound and with either side of a coin.
What is shown of a draw here holds whatever it answers: the draw runs without a fault, and
what it yields has a property. Draws are put together by showing of each part only this.
-/
namespace ClassicAlgorithms

namespace Draw

variable {σ α β : Type} {P P' : α → Prop} {Q : β → Prop}

/-- From every state of the source, the draw comes to a result, and the result has the property. -/
def Yields (x : Draw σ α) (P : α → Prop) : Prop :=
  ∀ state, ∃ a after, x state = .ok (a, after) ∧ P a

theorem yields_pure {a : α} (h : P a) : Yields (pure a : Draw σ α) P := by
  intro state
  exact ⟨a, state, rfl, h⟩

/-- The rest of a draw may rely on what its beginning yields. -/
theorem Yields.bind {x : Draw σ α} {f : α → Draw σ β} (hx : x.Yields P)
    (hf : ∀ a, P a → (f a).Yields Q) : Yields (x >>= f) Q := by
  intro state
  obtain ⟨a, middle, hrun, ha⟩ := hx state
  obtain ⟨b, after, hrest, hb⟩ := hf a ha middle
  refine ⟨b, after, ?_, hb⟩
  show (x state >>= fun p => f p.1 p.2) = _
  rw [hrun]
  exact hrest

theorem Yields.imp {x : Draw σ α} (hx : x.Yields P) (h : ∀ a, P a → P' a) : x.Yields P' := by
  intro state
  obtain ⟨a, after, hrun, ha⟩ := hx state
  exact ⟨a, after, hrun, h a ha⟩

theorem Yields.map {x : Draw σ α} {f : α → β} (hx : x.Yields P) (hf : ∀ a, P a → Q (f a)) :
    Yields (f <$> x) Q := by
  rw [← bind_pure_comp]
  exact hx.bind fun a ha => yields_pure (hf a ha)

/-- Work that draws nothing and does not fault. -/
theorem yields_monadLift {x : Except Fault α} {a : α} (hx : x = .ok a) :
    Yields (monadLift x : Draw σ α) fun b => b = a := by
  intro state
  subst hx
  exact ⟨a, state, rfl, rfl⟩

theorem yields_replicate {one : Draw σ α} (h : one.Yields P) (count : ℕ) :
    (Draw.replicate count one).Yields fun l => l.length = count ∧ ∀ a ∈ l, P a := by
  induction count with
  | zero => exact yields_pure ⟨rfl, by simp⟩
  | succ count ih =>
    unfold Draw.replicate
    apply h.bind
    intro a ha
    apply ih.bind
    intro rest hrest
    apply yields_pure
    exact ⟨by simp [hrest.1], List.forall_mem_cons.mpr ⟨ha, hrest.2⟩⟩

/-- One draw for each element of a list. -/
theorem yields_mapM {R : α → β → Prop} {f : α → Draw σ β} {l : List α}
    (h : ∀ a ∈ l, (f a).Yields (R a)) : Yields (l.mapM f) (List.Forall₂ R l) := by
  induction l with
  | nil =>
    rw [List.mapM_nil]
    exact yields_pure .nil
  | cons a l ih =>
    obtain ⟨ha, hl⟩ := List.forall_mem_cons.mp h
    rw [List.mapM_cons]
    apply ha.bind
    intro b hb
    apply (ih hl).bind
    intro rest hrest
    exact yields_pure (.cons hb hrest)

end Draw

namespace DrawSource

open Draw

variable {σ α : Type}

theorem yields_pick (src : DrawSource σ) {bound : ℕ} (h : 0 < bound) :
    (src.pick bound).Yields fun n => n < bound := by
  intro state
  have hrun : src.pick bound state = .ok (src.below bound state) := if_neg (by omega)
  exact ⟨_, _, hrun, src.below_lt bound state h⟩

theorem yields_between (src : DrawSource σ) {low high : ℕ} (h : low ≤ high) :
    (src.between low high).Yields fun n => low ≤ n ∧ n ≤ high := by
  have hpos : 0 < high + 1 - low := by omega
  apply (src.yields_pick hpos).map
  intro n hn
  omega

theorem yields_toss (src : DrawSource σ) (odds : ℕ) : (src.toss odds).Yields fun _ => True := by
  intro state
  exact ⟨_, _, rfl, trivial⟩

theorem yields_unitStep (src : DrawSource σ) : src.unitStep.Yields fun _ => True := by
  intro state
  exact ⟨_, _, rfl, trivial⟩

/-- Candidates are left out, and the others keep their order. -/
theorem yields_sift (src : DrawSource σ) (odds : ℕ) (l : List α) :
    (src.sift odds l).Yields fun kept => kept.Sublist l := by
  induction l with
  | nil => exact yields_pure .slnil
  | cons a l ih =>
    unfold sift
    apply (src.yields_toss odds).bind
    intro keep _
    apply ih.bind
    intro kept hkept
    apply yields_pure
    cases keep with
    | false => exact hkept.cons a
    | true => exact hkept.cons_cons a

theorem swapAt_eq_ok {table : Array α} {i j : ℕ} (hi : i < table.size) (hj : j < table.size) :
    swapAt table i j = .ok (table.swap i j) := by
  rw [swapAt, dif_pos hi, dif_pos hj]

/-- Both positions of an exchange lie in the table, since the second is at or before the first. -/
theorem yields_shuffleUpTo (src : DrawSource σ) {last : ℕ} {table : Array α}
    (h : last = 0 ∨ last < table.size) :
    (src.shuffleUpTo last table).Yields fun shuffled => shuffled.Perm table := by
  induction last generalizing table with
  | zero => exact yields_pure (.refl table)
  | succ last ih =>
    have hlast : last + 1 < table.size := by omega
    unfold shuffleUpTo
    apply (src.yields_between (Nat.zero_le _)).bind
    intro other hle
    have hother : other < table.size := by omega
    apply (yields_monadLift (swapAt_eq_ok hlast hother)).bind
    intro swapped hswapped
    have hrest : last < swapped.size := by
      rw [hswapped, Array.size_swap]
      omega
    apply (ih (.inr hrest)).imp
    intro shuffled hshuffled
    rw [hswapped] at hshuffled
    exact hshuffled.trans (Array.swap_perm hlast hother)

theorem yields_shuffle (src : DrawSource σ) (items : List α) :
    (src.shuffle items).Yields fun shuffled => shuffled.Perm items := by
  have htable : items.length - 1 = 0 ∨ items.length - 1 < items.toArray.size := by
    rw [List.size_toArray]
    omega
  apply (src.yields_shuffleUpTo htable).map
  intro shuffled hshuffled
  simpa using hshuffled.toList

end DrawSource

end ClassicAlgorithms
