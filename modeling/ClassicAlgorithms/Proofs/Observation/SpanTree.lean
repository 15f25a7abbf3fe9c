import ClassicAlgorithms.Observation.SpanTree
import ClassicAlgorithms.Proofs.Observation.History

/-!
# What a recorder hears of a tree of spans

A tree numbers its spans in the order in which they are opened and uses no number again. What its
recorder hears is therefore a history in which open spans have distinct numbers, and the journal is
the chronicle of that history, whatever the callers do.

A span is held by its handle and by its open children, and it counts its holders. A holder that has
let go and is still counted is owed; the way up from a span pays what is owed, and ends because a
parent has a smaller number than its children. For the same reason the span that was opened last has
no children, and nothing holds it once its handle is closed.
-/
namespace ClassicAlgorithms

namespace Recorder

variable {heard : List Notice} {id : ℕ}

theorem IsOpen.mem_filterMap (h : IsOpen heard id) : id ∈ heard.filterMap opens? := by
  obtain ⟨i, name, values, hopen⟩ := h
  exact List.mem_filterMap.mpr ⟨_, List.mem_of_getElem? hopen.opened, rfl⟩

/-- Numbers that are not used again are distinct, however long their spans stay open. -/
theorem distinct_of_nodup (h : (heard.filterMap opens?).Nodup) : Distinct heard := by
  induction heard using List.reverseRecOn with
  | nil =>
    intro i id name values hopened
    simp at hopened
  | append_singleton heard notice ih =>
    rw [List.filterMap_append, List.nodup_append] at h
    obtain ⟨hbefore, -, hne⟩ := h
    refine distinct_concat_iff.mpr ⟨ih hbefore, ?_⟩
    intro id name values hnotice hopen
    subst hnotice
    exact hne id hopen.mem_filterMap id (by simp [opens?]) rfl

def isClosing : Notice → Bool
  | .closed _ => true
  | _ => false

end Recorder

theorem lookup_eq_some_iff_of_nodup {α β : Type*} [DecidableEq α] {entries : List (α × β)}
    (hnodup : (entries.map Prod.fst).Nodup) {a : α} {value : β} :
    entries.lookup a = some value ↔ (a, value) ∈ entries := by
  rw [List.lookup_eq_some_iff]
  constructor
  · intro h
    obtain ⟨before, after, rfl, -⟩ := h
    simp
  · intro h
    obtain ⟨before, after, rfl⟩ := List.append_of_mem h
    refine ⟨before, after, rfl, ?_⟩
    intro entry hentry
    rw [List.map_append, List.nodup_append] at hnodup
    have hne := hnodup.2.2 entry.1 (List.mem_map_of_mem hentry) a (by simp)
    simpa using hne.symm

theorem filterMap_cons_eq_toList_append {α β : Type*} (f : α → Option β) (x : α) (xs : List α) :
    (x :: xs).filterMap f = (f x).toList ++ xs.filterMap f := by
  cases h : f x <;> simp [h]

theorem perm_cons_filter_of_nodup {α β : Type*} [DecidableEq β] {f : α → β} {xs : List α} {x : α}
    (hnodup : (xs.map f).Nodup) (hx : x ∈ xs) :
    xs.Perm (x :: xs.filter fun y => f y ≠ f x) := by
  obtain ⟨before, after, rfl⟩ := List.append_of_mem hx
  have hothers : (before ++ x :: after).filter (fun y => f y ≠ f x) = before ++ after := by
    rw [List.map_append, List.map_cons, List.nodup_append, List.nodup_cons] at hnodup
    obtain ⟨-, ⟨hafter, -⟩, hbefore⟩ := hnodup
    rw [List.filter_append, List.filter_cons_of_neg (by simp), List.filter_eq_self.mpr,
      List.filter_eq_self.mpr]
    · intro y hy
      have hne : f y ≠ f x := fun heq => hafter (heq ▸ List.mem_map_of_mem hy)
      simpa using hne
    · intro y hy
      simpa using hbefore (f y) (List.mem_map_of_mem hy) (f x) List.mem_cons_self
  rw [hothers]
  exact List.perm_middle

namespace SpanTree

open Recorder (opens? isClosing IsOpen)

/-- What callers do. -/
inductive Action where
  | openSpan (handle name : String) (fields : Fields) (parent : Option String)
  | record (handle : String) (values : Fields)
  | close (handle : String)
  | emit (event : EventRecord)

def act (t : SpanTree) : Action → SpanTree
  | .openSpan handle name fields parent => t.openSpan handle name fields parent
  | .record handle values => (t.record handle values).1
  | .close handle => (t.close handle).1
  | .emit event => t.emit event

def run (t : SpanTree) (actions : List Action) : SpanTree := actions.foldl act t

/-- What an action tells the recorder, leaving out the spans that close through it. -/
def told (t : SpanTree) : Action → List Notice
  | .openSpan _ name fields _ => [.opened t.next name (t.declared fields)]
  | .record handle values =>
    ((t.held? handle).map fun number => .recorded number (t.declared values)).toList
  | .close _ => []
  | .emit event => [.emitted event.level event.target event.fields]

def toldBy (t : SpanTree) : List Action → List Notice
  | [] => []
  | action :: rest => t.told action ++ (t.act action).toldBy rest

def numbers (t : SpanTree) : List ℕ := t.spans.map OpenSpan.number

/-- The numbers of the spans that are held, once for each handle and each open child. -/
def heldNumbers (t : SpanTree) : List ℕ :=
  t.handles.map Prod.snd ++ t.spans.filterMap OpenSpan.parent

variable {t : SpanTree} {heard : List Notice} {number : ℕ} {span : OpenSpan}

theorem mem_numbers_iff : number ∈ t.numbers ↔ ∃ span ∈ t.spans, span.number = number :=
  List.mem_map

theorem span?_eq_some (h : t.span? number = some span) : span ∈ t.spans ∧ span.number = number :=
  ⟨List.mem_of_find?_eq_some h, by simpa using List.find?_some h⟩

theorem exists_span?_eq_some (h : number ∈ t.numbers) : ∃ span, t.span? number = some span := by
  obtain ⟨span, hspan, hnumber⟩ := mem_numbers_iff.mp h
  exact Option.isSome_iff_exists.mp (List.find?_isSome.mpr ⟨span, hspan, by simpa using hnumber⟩)

@[simp] theorem numbers_setHolders (t : SpanTree) (number holders : ℕ) :
    (t.setHolders number holders).numbers = t.numbers := by
  refine List.map_map.trans (List.map_congr_left ?_)
  intro span _
  simp only [Function.comp]
  split_ifs <;> rfl

@[simp] theorem heldNumbers_setHolders (t : SpanTree) (number holders : ℕ) :
    (t.setHolders number holders).heldNumbers = t.heldNumbers := by
  refine congrArg (t.handles.map Prod.snd ++ ·) (List.filterMap_map.trans ?_)
  refine List.filterMap_congr ?_
  intro span _
  simp only [Function.comp]
  split_ifs <;> rfl

theorem handles_forget_of_held?_eq_none {handle : String} (h : t.held? handle = none) :
    (t.forget handle).handles = t.handles := by
  refine List.filter_eq_self.mpr ?_
  intro entry hentry
  have hne := bne_iff_ne.mp (List.lookup_eq_none_iff.mp h entry hentry)
  exact decide_eq_true (Ne.symm hne)

theorem handles_retain (t : SpanTree) (parent : Option ℕ) :
    (t.retain parent).handles = t.handles := by
  unfold retain
  split <;> rfl

@[simp] theorem numbers_retain (t : SpanTree) (parent : Option ℕ) :
    (t.retain parent).numbers = t.numbers := by
  unfold retain
  split <;> simp

theorem numbers_enter (t : SpanTree) (handle name : String) (fields : Fields)
    (parent : Option ℕ) :
    (t.enter handle name fields parent).numbers = t.numbers ++ [t.next] := by
  rw [← numbers_retain t parent]
  exact List.map_append

theorem mem_numbers_remove_iff {other : ℕ} :
    other ∈ (t.remove number).numbers ↔ other ∈ t.numbers ∧ other ≠ number := by
  simp only [mem_numbers_iff, remove, List.mem_filter, decide_eq_true_eq]
  constructor
  · intro h
    obtain ⟨span, ⟨hspan, hne⟩, rfl⟩ := h
    exact ⟨⟨span, hspan, rfl⟩, hne⟩
  · intro h
    obtain ⟨⟨span, hspan, rfl⟩, hne⟩ := h
    exact ⟨span, ⟨hspan, hne⟩, rfl⟩

/-! ### What is heard -/

/-- The recorder has heard this, of spans that have been numbered in order, and the spans of the
tree are those that are open. -/
structure Follows (t : SpanTree) (heard : List Notice) : Prop where
  recorder_eq : t.recorder = Recorder.ofHistory heard
  numbers_eq : heard.filterMap opens? = List.range t.next
  isOpen_iff : ∀ number, IsOpen heard number ↔ number ∈ t.numbers

namespace Follows

theorem empty (declares : String → Bool) : Follows (.empty declares) [] where
  recorder_eq := rfl
  numbers_eq := rfl
  isOpen_iff := by
    intro number
    exact iff_of_false Recorder.not_isOpen_nil List.not_mem_nil

theorem distinct (h : Follows t heard) : Recorder.Distinct heard :=
  Recorder.distinct_of_nodup (h.numbers_eq ▸ List.nodup_range)

theorem setHolders (h : Follows t heard) (number holders : ℕ) :
    Follows (t.setHolders number holders) heard :=
  ⟨h.recorder_eq, h.numbers_eq, by simpa using h.isOpen_iff⟩

theorem remove (h : Follows t heard) (number : ℕ) :
    Follows (t.remove number) (heard ++ [.closed number]) where
  recorder_eq := by
    rw [Recorder.ofHistory_concat, ← h.recorder_eq]
    rfl
  numbers_eq := by
    rw [List.filterMap_append, h.numbers_eq]
    exact List.append_nil _
  isOpen_iff := by
    intro other
    rw [Recorder.isOpen_concat_iff, h.isOpen_iff, mem_numbers_remove_iff]
    simp [eq_comm]

theorem enter (h : Follows t heard) (handle name : String) (fields : Fields)
    (parent : Option ℕ) :
    Follows (t.enter handle name fields parent)
      (heard ++ [.opened t.next name (t.declared fields)]) where
  recorder_eq := by
    rw [Recorder.ofHistory_concat, ← h.recorder_eq]
    rfl
  numbers_eq := by
    rw [List.filterMap_append, h.numbers_eq]
    exact List.range_succ.symm
  isOpen_iff := by
    intro number
    rw [Recorder.isOpen_concat_iff, h.isOpen_iff, numbers_enter, List.mem_append,
      List.mem_singleton]
    simp [or_comm, eq_comm]

/-- What neither opens nor closes a span leaves the tree as it is. -/
theorem hear (h : Follows t heard) (notice : Notice) (hopens : opens? notice = none)
    (hcloses : isClosing notice = false) :
    Follows { t with recorder := t.recorder.hear notice } (heard ++ [notice]) where
  recorder_eq := by rw [Recorder.ofHistory_concat, h.recorder_eq]
  numbers_eq := by simpa [hopens] using h.numbers_eq
  isOpen_iff := by
    intro number
    rw [Recorder.isOpen_concat_iff, h.isOpen_iff]
    cases notice <;> simp_all [opens?, isClosing, numbers]

/-- The way up from a span closes spans and does nothing else. -/
theorem release (h : Follows t heard) (levels number : ℕ) :
    ∃ later, Follows (release levels number t) (heard ++ later) ∧
      later.filter (! isClosing ·) = [] := by
  induction levels generalizing t heard number with
  | zero => exact ⟨[], by rwa [List.append_nil, SpanTree.release], rfl⟩
  | succ levels ih =>
    unfold SpanTree.release
    split
    case h_1 => exact ⟨[], by rwa [List.append_nil], rfl⟩
    case h_2 span _ =>
      split_ifs with hholders
      · exact ⟨[], by simpa using h.setHolders number (span.holders - 1), rfl⟩
      · cases hparent : span.parent with
        | none => exact ⟨[.closed number], h.remove number, rfl⟩
        | some parent =>
          obtain ⟨later, hlater, hclosings⟩ := ih (h.remove number) parent
          exact ⟨.closed number :: later, by simpa using hlater, hclosings⟩

theorem act (h : Follows t heard) (action : Action) :
    ∃ later, Follows (t.act action) (heard ++ later) ∧
      later.filter (! isClosing ·) = t.told action := by
  cases action with
  | openSpan handle name fields parent =>
    have hforget : Follows (t.forget handle) heard := ⟨h.recorder_eq, h.numbers_eq, h.isOpen_iff⟩
    have hopened := hforget.enter handle name fields (parent.bind t.held?)
    simp only [SpanTree.act, openSpan]
    split
    case h_1 => exact ⟨_, hopened, rfl⟩
    case h_2 old _ =>
      obtain ⟨later, hlater, hclosings⟩ := hopened.release (old + 1) old
      refine ⟨_, List.append_assoc .. ▸ hlater, ?_⟩
      rw [List.filter_append, hclosings]
      rfl
  | record handle values =>
    simp only [SpanTree.act, record, told]
    cases t.held? handle with
    | none => exact ⟨[], by rwa [List.append_nil], rfl⟩
    | some number => exact ⟨_, h.hear (.recorded number (t.declared values)) rfl rfl, rfl⟩
  | close handle =>
    simp only [SpanTree.act, close, told]
    cases t.held? handle with
    | none => exact ⟨[], by rwa [List.append_nil], rfl⟩
    | some number =>
      have hforget : Follows (t.forget handle) heard := ⟨h.recorder_eq, h.numbers_eq, h.isOpen_iff⟩
      exact hforget.release (number + 1) number
  | emit event =>
    exact ⟨_, h.hear (.emitted event.level event.target event.fields) rfl rfl, rfl⟩

theorem run (h : Follows t heard) (actions : List Action) :
    ∃ later, Follows (t.run actions) (heard ++ later) ∧
      later.filter (! isClosing ·) = t.toldBy actions := by
  induction actions generalizing t heard with
  | nil => exact ⟨[], by rwa [List.append_nil], rfl⟩
  | cons action rest ih =>
    obtain ⟨first, hfirst, htold⟩ := h.act action
    obtain ⟨later, hlater, hrest⟩ := ih hfirst
    refine ⟨first ++ later, ?_, ?_⟩
    · rwa [← List.append_assoc]
    · rw [List.filter_append, htold, hrest, toldBy]

end Follows

/-! ### What is held -/

theorem perm_heldNumbers_remove (hnodup : t.numbers.Nodup) (hspan : span ∈ t.spans) :
    (span.parent.toList ++ (t.remove span.number).heldNumbers).Perm t.heldNumbers := by
  have hspans : t.spans.Perm (span :: (t.remove span.number).spans) :=
    perm_cons_filter_of_nodup hnodup hspan
  have hparents := hspans.filterMap OpenSpan.parent
  rw [filterMap_cons_eq_toList_append] at hparents
  exact (List.perm_append_comm_assoc ..).trans (hparents.symm.append_left _)

theorem perm_heldNumbers_forget (hnodup : (t.handles.map Prod.fst).Nodup) (handle : String) :
    ((t.held? handle).toList ++ (t.forget handle).heldNumbers).Perm t.heldNumbers := by
  have hhandles : ((t.held? handle).toList ++ (t.forget handle).handles.map Prod.snd).Perm
      (t.handles.map Prod.snd) := by
    cases hheld : t.held? handle with
    | none =>
      rw [handles_forget_of_held?_eq_none hheld]
      rfl
    | some number =>
      have hentry : (handle, number) ∈ t.handles := (lookup_eq_some_iff_of_nodup hnodup).mp hheld
      exact ((perm_cons_filter_of_nodup hnodup hentry).map Prod.snd).symm
  rw [heldNumbers, ← List.append_assoc]
  exact hhandles.append_right _

theorem perm_heldNumbers_enter (t : SpanTree) (handle name : String) (fields : Fields)
    (parent : Option ℕ) :
    (t.enter handle name fields parent).heldNumbers.Perm
      (t.next :: (parent.toList ++ (t.retain parent).heldNumbers)) := by
  have hhandles : (t.enter handle name fields parent).handles.map Prod.snd =
      t.next :: (t.retain parent).handles.map Prod.snd := by
    rw [handles_retain]
    rfl
  have hspans : (t.enter handle name fields parent).spans.filterMap OpenSpan.parent =
      (t.retain parent).spans.filterMap OpenSpan.parent ++ parent.toList := by
    refine List.filterMap_append.trans ?_
    rw [filterMap_cons_eq_toList_append, List.filterMap_nil, List.append_nil]
  rw [heldNumbers, heldNumbers, hhandles, hspans, List.cons_append, ← List.append_assoc]
  exact List.perm_append_comm.cons t.next

theorem perm_owed_append {held held' passed : List ℕ} (h : (passed ++ held').Perm held)
    (owed : List ℕ) : (passed ++ owed ++ held').Perm (owed ++ held) := by
  rw [List.append_assoc]
  exact (List.perm_append_comm_assoc ..).trans (h.append_left owed)

/-- Every span counts its holders, those that are owed among them, and has at least one. -/
structure Balanced (t : SpanTree) (owed : List ℕ) : Prop where
  nodup_numbers : t.numbers.Nodup
  lt_next : ∀ number ∈ t.numbers, number < t.next
  nodup_handles : (t.handles.map Prod.fst).Nodup
  parent_lt : ∀ span ∈ t.spans, ∀ parent ∈ span.parent, parent < span.number
  mem_iff : ∀ number, number ∈ owed ++ t.heldNumbers ↔ number ∈ t.numbers
  holders_eq : ∀ span ∈ t.spans, span.holders = (owed ++ t.heldNumbers).count span.number

namespace Balanced

variable {owed owed' : List ℕ}

theorem empty (declares : String → Bool) : Balanced (.empty declares) [] where
  nodup_numbers := .nil
  lt_next := by simp [numbers, SpanTree.empty]
  nodup_handles := .nil
  parent_lt := by simp [SpanTree.empty]
  mem_iff := by simp [numbers, heldNumbers, SpanTree.empty]
  holders_eq := by simp [SpanTree.empty]

theorem held?_eq_some_iff (h : Balanced t owed) {handle : String} :
    t.held? handle = some number ↔ (handle, number) ∈ t.handles :=
  lookup_eq_some_iff_of_nodup h.nodup_handles

theorem setHolders (h : Balanced t owed) {holders : ℕ} (hnumber : number ∈ t.numbers)
    (hpos : 0 < holders)
    (hcount : ∀ other, (owed' ++ t.heldNumbers).count other =
      if other = number then holders else (owed ++ t.heldNumbers).count other) :
    Balanced (t.setHolders number holders) owed' where
  nodup_numbers := by simpa using h.nodup_numbers
  lt_next := by
    intro other hother
    rw [numbers_setHolders] at hother
    exact h.lt_next other hother
  nodup_handles := h.nodup_handles
  parent_lt := by
    intro span hspan
    obtain ⟨before, hbefore, rfl⟩ := List.mem_map.mp hspan
    have hlt := h.parent_lt before hbefore
    split_ifs <;> exact hlt
  mem_iff := by
    intro other
    rw [heldNumbers_setHolders, numbers_setHolders, ← List.count_pos_iff, hcount]
    split_ifs with hother
    · rw [hother]
      exact iff_of_true hpos hnumber
    · rw [List.count_pos_iff, h.mem_iff]
  holders_eq := by
    intro span hspan
    obtain ⟨before, hbefore, rfl⟩ := List.mem_map.mp hspan
    rw [heldNumbers_setHolders, hcount]
    by_cases hother : before.number = number
    · simp [hother]
    · simpa [hother] using h.holders_eq before hbefore

theorem retain (h : Balanced t owed) {parent : Option ℕ}
    (hparent : ∀ number ∈ parent, number ∈ t.numbers) :
    Balanced (t.retain parent) (parent.toList ++ owed) := by
  cases parent with
  | none => exact h
  | some number =>
    obtain ⟨span, hspan⟩ := exists_span?_eq_some (hparent number rfl)
    obtain ⟨hmem, rfl⟩ := span?_eq_some hspan
    simp only [SpanTree.retain, Option.bind_some, hspan]
    refine h.setHolders (hparent span.number rfl) (Nat.succ_pos _) ?_
    intro other
    rw [Option.toList_some, List.singleton_append, List.cons_append, List.count_cons,
      h.holders_eq span hmem]
    split_ifs <;> simp_all

/-- One of several holders lets go. -/
theorem pay (h : Balanced t (number :: owed)) (hspan : t.span? number = some span)
    (hholders : 1 < span.holders) :
    Balanced (t.setHolders number (span.holders - 1)) owed := by
  obtain ⟨hmem, rfl⟩ := span?_eq_some hspan
  refine h.setHolders (mem_numbers_iff.mpr ⟨span, hmem, rfl⟩) (by omega) ?_
  intro other
  rw [h.holders_eq span hmem, List.cons_append, List.count_cons, List.count_cons]
  split_ifs <;> simp_all

/-- The last holder lets go. -/
theorem remove (h : Balanced t (number :: owed)) (hspan : t.span? number = some span)
    (hholders : ¬ 1 < span.holders) :
    Balanced (t.remove number) (span.parent.toList ++ owed) := by
  obtain ⟨hmem, rfl⟩ := span?_eq_some hspan
  have hperm := perm_owed_append (perm_heldNumbers_remove h.nodup_numbers hmem) owed
  -- The owed holder was the only one, so neither a handle nor a child is left behind.
  have hlast : span.number ∉ owed ++ t.heldNumbers := by
    have hcount := h.holders_eq span hmem
    rw [List.cons_append, List.count_cons_self] at hcount
    rw [← List.count_pos_iff]
    omega
  constructor
  case nodup_numbers => exact h.nodup_numbers.sublist (List.filter_sublist.map _)
  case lt_next =>
    intro other hother
    exact h.lt_next other (mem_numbers_remove_iff.mp hother).1
  case nodup_handles => exact h.nodup_handles
  case parent_lt =>
    intro other hother
    exact h.parent_lt other (List.mem_of_mem_filter hother)
  case mem_iff =>
    intro other
    rw [hperm.mem_iff, mem_numbers_remove_iff, ← h.mem_iff, List.cons_append, List.mem_cons]
    by_cases hother : other = span.number
    · simpa [hother] using hlast
    · simp [hother]
  case holders_eq =>
    intro other hother
    obtain ⟨hbefore, hne⟩ := List.mem_filter.mp hother
    have hcount := h.holders_eq other hbefore
    rw [hperm.count_eq, hcount, List.cons_append,
      List.count_cons_of_ne (Ne.symm (of_decide_eq_true hne))]

/-- Parents have smaller numbers, so the way up ends before the levels do. -/
theorem release {levels : ℕ} (hlevels : number < levels) (h : Balanced t (number :: owed)) :
    Balanced (release levels number t) owed := by
  induction levels generalizing t number owed with
  | zero => omega
  | succ levels ih =>
    have hmem : number ∈ t.numbers := (h.mem_iff number).mp (by simp)
    obtain ⟨span, hspan⟩ := exists_span?_eq_some hmem
    simp only [SpanTree.release, hspan]
    split_ifs with hholders
    · exact h.pay hspan hholders
    · have hremove := h.remove hspan hholders
      cases hparent : span.parent with
      | none => simpa [hparent] using hremove
      | some parent =>
        obtain ⟨hopen, rfl⟩ := span?_eq_some hspan
        have hlt := h.parent_lt span hopen parent hparent
        exact ih (by omega) (by simpa [hparent] using hremove)

theorem drop (h : Balanced t (number :: owed)) : Balanced (t.drop number) owed :=
  h.release (Nat.lt_succ_self number)

theorem forget (h : Balanced t owed) (handle : String) :
    Balanced (t.forget handle) ((t.held? handle).toList ++ owed) := by
  have hperm := perm_owed_append (perm_heldNumbers_forget h.nodup_handles handle) owed
  constructor
  case nodup_numbers => exact h.nodup_numbers
  case lt_next => exact h.lt_next
  case nodup_handles => exact h.nodup_handles.sublist (List.filter_sublist.map _)
  case parent_lt => exact h.parent_lt
  case mem_iff =>
    intro number
    rw [hperm.mem_iff]
    exact h.mem_iff number
  case holders_eq =>
    intro span hspan
    rw [hperm.count_eq]
    exact h.holders_eq span hspan

theorem enter (h : Balanced t owed) {handle : String} (name : String) (fields : Fields)
    {parent : Option ℕ} (hhandle : handle ∉ t.handles.map Prod.fst)
    (hparent : ∀ number ∈ parent, number ∈ t.numbers) :
    Balanced (t.enter handle name fields parent) owed := by
  have hretained := h.retain hparent
  have hperm : (owed ++ (t.enter handle name fields parent).heldNumbers).Perm
      (t.next :: (parent.toList ++ owed ++ (t.retain parent).heldNumbers)) := by
    refine ((perm_heldNumbers_enter t handle name fields parent).append_left owed).trans ?_
    rw [List.append_assoc]
    exact List.perm_middle.trans ((List.perm_append_comm_assoc ..).cons t.next)
  have hfresh : t.next ∉ parent.toList ++ owed ++ (t.retain parent).heldNumbers := by
    rw [hretained.mem_iff, numbers_retain]
    exact fun hmem => Nat.lt_irrefl _ (h.lt_next t.next hmem)
  constructor
  case nodup_numbers =>
    rw [numbers_enter, List.nodup_append]
    refine ⟨h.nodup_numbers, List.pairwise_singleton _ _, ?_⟩
    intro number hnumber other hother
    rw [List.mem_singleton.mp hother]
    exact Nat.ne_of_lt (h.lt_next number hnumber)
  case lt_next =>
    intro number hnumber
    rw [numbers_enter, List.mem_append, List.mem_singleton] at hnumber
    refine Nat.lt_succ_of_le ?_
    rcases hnumber with hnumber | rfl
    · exact Nat.le_of_lt (h.lt_next number hnumber)
    · exact Nat.le_refl _
  case nodup_handles => exact List.nodup_cons.mpr ⟨hhandle, h.nodup_handles⟩
  case parent_lt =>
    intro span hspan
    rcases List.mem_append.mp hspan with hspan | hspan
    · exact hretained.parent_lt span hspan
    · obtain rfl := List.mem_singleton.mp hspan
      intro number hnumber
      exact h.lt_next number (hparent number hnumber)
  case mem_iff =>
    intro number
    rw [hperm.mem_iff, List.mem_cons, hretained.mem_iff, numbers_retain, numbers_enter,
      List.mem_append, List.mem_singleton, or_comm]
  case holders_eq =>
    intro span hspan
    rw [hperm.count_eq]
    rcases List.mem_append.mp hspan with hspan | hspan
    · have hlt : span.number < t.next :=
        h.lt_next _ (numbers_retain t parent ▸ mem_numbers_iff.mpr ⟨span, hspan, rfl⟩)
      rw [List.count_cons_of_ne (by omega)]
      exact hretained.holders_eq span hspan
    · obtain rfl := List.mem_singleton.mp hspan
      rw [List.count_cons_self, List.count_eq_zero_of_not_mem hfresh]

theorem act (h : Balanced t []) (action : Action) : Balanced (t.act action) [] := by
  cases action with
  | openSpan handle name fields parent =>
    have hforget := h.forget handle
    have hhandle : handle ∉ (t.forget handle).handles.map Prod.fst := by
      simp [SpanTree.forget]
    have hparent : ∀ number ∈ parent.bind t.held?, number ∈ (t.forget handle).numbers := by
      intro number hnumber
      obtain ⟨above, -, hheld⟩ := Option.bind_eq_some_iff.mp hnumber
      have hentry := h.held?_eq_some_iff.mp hheld
      have hmem : number ∈ t.heldNumbers := List.mem_append_left _ (List.mem_map_of_mem hentry)
      exact (h.mem_iff number).mp hmem
    have hopened := hforget.enter name fields hhandle hparent
    simp only [SpanTree.act, openSpan]
    cases hheld : t.held? handle with
    | none => simpa [hheld] using hopened
    | some old => exact Balanced.drop (by simpa [hheld] using hopened)
  | record handle values =>
    simp only [SpanTree.act, record]
    cases t.held? handle with
    | none => exact h
    | some number =>
      exact ⟨h.nodup_numbers, h.lt_next, h.nodup_handles, h.parent_lt, h.mem_iff, h.holders_eq⟩
  | close handle =>
    have hforget := h.forget handle
    simp only [SpanTree.act, close]
    cases hheld : t.held? handle with
    | none => exact h
    | some number => exact Balanced.drop (by simpa [hheld] using hforget)
  | emit event =>
    exact ⟨h.nodup_numbers, h.lt_next, h.nodup_handles, h.parent_lt, h.mem_iff, h.holders_eq⟩

theorem run (h : Balanced t []) (actions : List Action) : Balanced (t.run actions) [] := by
  induction actions generalizing t with
  | nil => exact h
  | cons action rest ih => exact ih (h.act action)

/-- A span is in the tree as long as a handle or a child in the tree holds it. -/
theorem mem_numbers_iff_held (h : Balanced t []) :
    number ∈ t.numbers ↔
      (∃ handle, t.held? handle = some number) ∨ ∃ child ∈ t.spans, child.parent = some number := by
  rw [← h.mem_iff, List.nil_append, heldNumbers, List.mem_append, List.mem_filterMap, List.mem_map]
  simp only [h.held?_eq_some_iff]
  refine or_congr_left ?_
  constructor
  · intro h
    obtain ⟨entry, hentry, rfl⟩ := h
    exact ⟨entry.1, hentry⟩
  · intro h
    obtain ⟨handle, hentry⟩ := h
    exact ⟨_, hentry, rfl⟩

/-- Without handles nothing holds the span that was opened last. -/
theorem spans_eq_nil (h : Balanced t []) (hhandles : t.handles = []) : t.spans = [] := by
  -- What holds a span is its child, so has a larger number, and below `t.next` these end.
  have hnone (levels : ℕ) : ∀ number, t.next ≤ number + levels → number ∉ t.numbers := by
    induction levels with
    | zero =>
      intro number hnext hnumber
      exact absurd (h.lt_next number hnumber) (Nat.not_lt.mpr hnext)
    | succ levels ih =>
      intro number hnext hnumber
      obtain ⟨handle, hheld⟩ | ⟨child, hchild, hparent⟩ := h.mem_numbers_iff_held.mp hnumber
      · rw [h.held?_eq_some_iff, hhandles] at hheld
        exact List.not_mem_nil hheld
      · have hlt := h.parent_lt child hchild number hparent
        exact ih child.number (by omega) (mem_numbers_iff.mpr ⟨child, hchild, rfl⟩)
  refine List.eq_nil_iff_forall_not_mem.mpr ?_
  intro span hspan
  exact hnone t.next span.number (Nat.le_add_left _ _) (mem_numbers_iff.mpr ⟨span, hspan, rfl⟩)

end Balanced

/-! ### Runs -/

theorem handles_release (levels number : ℕ) (t : SpanTree) :
    (release levels number t).handles = t.handles := by
  induction levels generalizing number t with
  | zero => rfl
  | succ levels ih =>
    unfold release
    split
    · rfl
    · split_ifs
      · rfl
      · split
        · rfl
        · rw [ih]
          rfl

theorem handles_close (t : SpanTree) (handle : String) :
    (t.close handle).1.handles = (t.forget handle).handles := by
  unfold close
  split
  case h_1 hheld => exact (handles_forget_of_held?_eq_none hheld).symm
  case h_2 => exact handles_release ..

theorem handles_foldl_close (t : SpanTree) (held : List String) :
    (held.foldl (fun t handle => (t.close handle).1) t).handles =
      t.handles.filter fun entry => entry.1 ∉ held := by
  induction held generalizing t with
  | nil => simp
  | cons handle rest ih =>
    rw [List.foldl_cons, ih, handles_close, forget, List.filter_filter]
    refine List.filter_congr ?_
    intro entry _
    simp [Bool.and_comm]

theorem handles_closeAll (t : SpanTree) : t.closeAll.handles = [] := by
  rw [closeAll, handles_foldl_close, List.filter_eq_nil_iff]
  intro entry hentry
  simpa using ⟨entry.2, hentry⟩

theorem toldBy_map_close (t : SpanTree) (held : List String) : t.toldBy (held.map .close) = [] := by
  induction held generalizing t with
  | nil => rfl
  | cons handle rest ih => exact ih (t.act (.close handle))

/-- All handles are closed by closing one after the other. -/
theorem exists_closeAll_eq_run (t : SpanTree) :
    ∃ closings, t.closeAll = t.run closings ∧ t.toldBy closings = [] := by
  refine ⟨((t.handles.map Prod.fst).mergeSort fun a b => a ≤ b).map .close, ?_, ?_⟩
  · rw [run, List.foldl_map]
    rfl
  · exact toldBy_map_close t _

theorem Follows.chronicle (h : Follows t heard) : Recorder.Chronicle heard t.journal := by
  rw [journal, h.recorder_eq]
  exact ⟨Recorder.exists_lifetimes h.distinct, Recorder.forall₂_events heard⟩

/-- Whatever callers do, the journal is the chronicle of a history in which open spans have
distinct numbers. It says what they did, with the values that are declared, and in between which
spans closed: a span is open as long as its handle or one of its children is. -/
theorem exists_chronicle_run (declares : String → Bool) (actions : List Action) :
    let t := (empty declares).run actions
    ∃ heard, t.recorder = Recorder.ofHistory heard ∧ Recorder.Distinct heard ∧
      Recorder.Chronicle heard t.journal ∧
      heard.filter (! isClosing ·) = (empty declares).toldBy actions ∧
      ∀ number, IsOpen heard number ↔ (∃ handle, t.held? handle = some number) ∨
        ∃ child ∈ t.spans, child.parent = some number := by
  obtain ⟨heard, hfollows, htold⟩ := (Follows.empty declares).run actions
  have hbalanced := (Balanced.empty declares).run actions
  refine ⟨heard, hfollows.recorder_eq, hfollows.distinct, hfollows.chronicle, htold, ?_⟩
  intro number
  rw [← hbalanced.mem_numbers_iff_held]
  exact hfollows.isOpen_iff number

/-- Once all handles are closed no span is open, so that the journal has every span. -/
theorem exists_chronicle_closeAll (declares : String → Bool) (actions : List Action) :
    let t := ((empty declares).run actions).closeAll
    ∃ heard, t.recorder = Recorder.ofHistory heard ∧ Recorder.Distinct heard ∧
      Recorder.Chronicle heard t.journal ∧
      heard.filter (! isClosing ·) = (empty declares).toldBy actions ∧
      ∀ number, ¬ IsOpen heard number := by
  obtain ⟨closings, hclosings, hquiet⟩ := exists_closeAll_eq_run ((empty declares).run actions)
  obtain ⟨before, hbefore, htold⟩ := (Follows.empty declares).run actions
  obtain ⟨later, hlater, hrest⟩ := hbefore.run closings
  have hbalanced := ((Balanced.empty declares).run actions).run closings
  rw [← hclosings] at hlater hbalanced
  have hspans := hbalanced.spans_eq_nil (handles_closeAll _)
  refine ⟨_, hlater.recorder_eq, hlater.distinct, hlater.chronicle, ?_, ?_⟩
  · rw [List.nil_append, List.filter_append, htold, hrest, hquiet, List.append_nil]
  · intro number hopen
    have hmem := (hlater.isOpen_iff number).mp hopen
    rw [numbers, hspans] at hmem
    exact List.not_mem_nil hmem

end SpanTree

end ClassicAlgorithms
