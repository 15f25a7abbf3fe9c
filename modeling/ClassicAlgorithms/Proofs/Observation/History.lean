import ClassicAlgorithms.Observation.Recorder
import Mathlib.Data.List.Forall2
import Mathlib.Data.List.Induction

/-!
# What a recorder makes of its history

Spans are known by numbers, and a number may be used again once its span has closed. A span is
therefore a pair of places in the history: where it was opened, and where the same number was
closed next. The journal has one entry for each such pair, in the order of the closings, and the
fields of an entry are those set between the two places. All else leaves no trace there.

The history is followed notice by notice. One notice more changes what is open, and which spans
have closed, in a way that can be read off the notice.
-/
namespace ClassicAlgorithms

section
variable {α β : Type*} [DecidableEq α] {entries : List (α × β)}

theorem lookup_cons_ite (a b : α) (value : β) :
    ((b, value) :: entries).lookup a = if a = b then some value else entries.lookup a := by
  by_cases h : a = b
  · rw [h, List.lookup_cons_self, if_pos rfl]
  · rw [List.lookup_cons, beq_false_of_ne h, if_neg h]

theorem lookup_filter_fst (entries : List (α × β)) (keep : α → Bool) (a : α) :
    (entries.filter fun entry => keep entry.1).lookup a =
      if keep a then entries.lookup a else none := by
  induction entries with
  | nil => simp
  | cons entry rest ih =>
    obtain ⟨b, value⟩ := entry
    rw [lookup_cons_ite, List.filter_cons]
    by_cases hab : a = b
    · subst hab
      by_cases ha : keep a <;> simp [ha, ih]
    · by_cases hb : keep b <;> simp [hb, hab, ih, lookup_cons_ite]

theorem lookup_map_at (b : α) (change : β → β) (a : α) :
    (entries.map fun entry =>
        if entry.1 = b then (entry.1, change entry.2) else entry).lookup a =
      if a = b then (entries.lookup a).map change else entries.lookup a := by
  induction entries with
  | nil => simp
  | cons entry rest ih =>
    obtain ⟨c, value⟩ := entry
    have hhead : (if c = b then (c, change value) else (c, value)) =
        (c, if c = b then change value else value) := by
      split_ifs <;> rfl
    rw [List.map_cons, hhead, lookup_cons_ite, lookup_cons_ite, ih]
    by_cases hac : a = c
    · subst hac
      by_cases hab : a = b <;> simp [hab]
    · simp [hac]

theorem map_at_of_forall_ne {b : α} (change : β → β) (h : ∀ entry ∈ entries, entry.1 ≠ b) :
    (entries.map fun entry => if entry.1 = b then (entry.1, change entry.2) else entry) =
      entries := by
  refine (List.map_congr_left ?_).trans (List.map_id _)
  intro entry hentry
  rw [if_neg (h entry hentry), id]

theorem getElem?_concat_eq_some_iff {γ : Type*} {xs : List γ} {x y : γ} {i : ℕ} :
    (xs ++ [x])[i]? = some y ↔ xs[i]? = some y ∨ i = xs.length ∧ x = y := by
  rcases Nat.lt_trichotomy i xs.length with hi | hi | hi
  · rw [List.getElem?_append_left hi]
    simp [Nat.ne_of_lt hi]
  · rw [hi, List.getElem?_concat_length]
    simp
  · rw [List.getElem?_eq_none (by simp; omega), List.getElem?_eq_none (by omega)]
    simp [Nat.ne_of_gt hi]

theorem lt_length_of_getElem? {γ : Type*} {xs : List γ} {y : γ} {i : ℕ} (h : xs[i]? = some y) :
    i < xs.length :=
  (List.getElem?_eq_some_iff.mp h).1

end

namespace Fields

/-- The value that is given last under that name. -/
def lastValue? (values : Fields) (name : String) : Option String := values.reverse.lookup name

theorem get?_set (fields : Fields) (name value field : String) :
    (fields.set name value).get? field =
      if field = name then some value else fields.get? field := by
  have hothers := lookup_filter_fst fields (fun n => n != name) field
  show (fields.filter (fun entry => entry.1 != name) ++ [(name, value)]).lookup field = _
  rw [List.lookup_append, hothers, lookup_cons_ite]
  by_cases h : field = name <;> simp [h, get?]

/-- Of all the values set under one name the last one counts. -/
theorem get?_setAll (fields values : Fields) (field : String) :
    (fields.setAll values).get? field = (lastValue? values field).or (fields.get? field) := by
  induction values generalizing fields with
  | nil => simp [setAll, lastValue?]
  | cons entry rest ih =>
    obtain ⟨name, value⟩ := entry
    have hrest := ih (fields.set name value)
    rw [setAll, List.foldl_cons, ← setAll, hrest, get?_set, lastValue?, lastValue?,
      List.reverse_cons, List.lookup_append, Option.or_assoc, lookup_cons_ite]
    by_cases h : field = name <;> simp [h]

theorem get?_setAll_nil (values : Fields) (field : String) :
    (setAll [] values).get? field = lastValue? values field := by
  rw [get?_setAll]
  simp [get?]

theorem setAll_append (fields first second : Fields) :
    fields.setAll (first ++ second) = (fields.setAll first).setAll second :=
  List.foldl_append

end Fields

namespace Journal

variable {j : Journal} {name : String} {span : SpanRecord}

/-- The entry has that name, and no entry in front of it has. -/
def FirstNamed (j : Journal) (name : String) (span : SpanRecord) : Prop :=
  span.name = name ∧
    ∃ before after, j.spans = before ++ span :: after ∧ ∀ s ∈ before, s.name ≠ name

theorem spanNamed?_eq_some_iff : j.spanNamed? name = some span ↔ j.FirstNamed name span := by
  rw [spanNamed?, List.find?_eq_some_iff_append, FirstNamed]
  simp

theorem spanNamed?_eq_none_iff :
    j.spanNamed? name = none ↔ ∀ span ∈ j.spans, span.name ≠ name := by
  rw [spanNamed?, List.find?_eq_none]
  simp

end Journal

namespace Recorder

variable {heard : List Notice} {r : Recorder} {id : ℕ}

/-! ### What is open -/

/-- Nothing has closed the span that was opened there. -/
structure OpenSince (heard : List Notice) (id i : ℕ) (name : String) (values : Fields) : Prop where
  opened : heard[i]? = some (.opened id name values)
  not_closed : Notice.closed id ∉ heard.drop (i + 1)

def IsOpen (heard : List Notice) (id : ℕ) : Prop :=
  ∃ i name values, OpenSince heard id i name values

/-- A number is used again only after its span has closed. -/
def Distinct (heard : List Notice) : Prop :=
  ∀ i id name values, heard[i]? = some (.opened id name values) → ¬ IsOpen (heard.take i) id

/-- All values recorded under a number, in order. -/
def recordedOn (id : ℕ) (heard : List Notice) : Fields :=
  heard.flatMap fun
    | .recorded other values => if other = id then values else []
    | _ => []

theorem ofHistory_concat (heard : List Notice) (notice : Notice) :
    ofHistory (heard ++ [notice]) = (ofHistory heard).hear notice := by
  rw [ofHistory, List.foldl_append, ← ofHistory, List.foldl_cons, List.foldl_nil]

theorem lookup_opened (r : Recorder) (other : ℕ) (name : String) (values : Fields) (id : ℕ) :
    (r.opened other name values).live.lookup id = (r.live.lookup id).or
      (if id = other then some ⟨name, Fields.setAll [] values⟩ else none) := by
  rw [opened, List.lookup_append, lookup_cons_ite]
  rfl

theorem lookup_recorded (r : Recorder) (other : ℕ) (values : Fields) (id : ℕ) :
    (r.recorded other values).live.lookup id =
      if id = other then
        (r.live.lookup id).map fun span => ⟨span.name, span.fields.setAll values⟩
      else r.live.lookup id :=
  lookup_map_at other (fun span : SpanRecord => ⟨span.name, span.fields.setAll values⟩) id

theorem lookup_closed (r : Recorder) (other id : ℕ) :
    (r.closed other).live.lookup id = if id = other then none else r.live.lookup id := by
  unfold closed
  split
  case h_1 hnone =>
    by_cases h : id = other <;> simp [h, hnone]
  case h_2 hsome =>
    have hothers := lookup_filter_fst r.live (fun i => decide (i ≠ other)) id
    refine hothers.trans ?_
    by_cases h : id = other <;> simp [h]

theorem openSince_concat_iff {notice : Notice} {i : ℕ} {name : String} {values : Fields} :
    OpenSince (heard ++ [notice]) id i name values ↔
      (i = heard.length ∧ notice = .opened id name values) ∨
        (OpenSince heard id i name values ∧ notice ≠ .closed id) := by
  constructor
  · intro h
    obtain ⟨hopened, hclosed⟩ := h
    rcases getElem?_concat_eq_some_iff.mp hopened with hopened | hlast
    · have hi := lt_length_of_getElem? hopened
      rw [List.drop_append_of_le_length (by omega)] at hclosed
      simp only [List.mem_append, List.mem_singleton, not_or] at hclosed
      exact .inr ⟨⟨hopened, hclosed.1⟩, Ne.symm hclosed.2⟩
    · exact .inl hlast
  · intro h
    rcases h with ⟨rfl, rfl⟩ | ⟨⟨hopened, hclosed⟩, hne⟩
    · exact ⟨by simp, by simp⟩
    · have hi := lt_length_of_getElem? hopened
      refine ⟨getElem?_concat_eq_some_iff.mpr (.inl hopened), ?_⟩
      rw [List.drop_append_of_le_length (by omega)]
      simp [hclosed, hne.symm]

theorem OpenSince.take {i j : ℕ} {name : String} {values : Fields}
    (h : OpenSince heard id i name values) (hij : i < j) :
    OpenSince (heard.take j) id i name values := by
  refine ⟨by rw [List.getElem?_take_of_lt hij, h.opened], ?_⟩
  rw [List.drop_take]
  exact fun hclosed => h.not_closed (List.mem_of_mem_take hclosed)

/-- Under one number no two spans are open. -/
theorem Distinct.openSince_unique (hdistinct : Distinct heard) {i j : ℕ} {name name' : String}
    {values values' : Fields} (hi : OpenSince heard id i name values)
    (hj : OpenSince heard id j name' values') : i = j ∧ name = name' ∧ values = values' := by
  have hij : i = j := by
    rcases Nat.lt_trichotomy i j with h | h | h
    · exact absurd ⟨i, name, values, hi.take h⟩ (hdistinct j id name' values' hj.opened)
    · exact h
    · exact absurd ⟨j, name', values', hj.take h⟩ (hdistinct i id name values hi.opened)
  subst hij
  have hsame := hi.opened.symm.trans hj.opened
  simp only [Option.some.injEq, Notice.opened.injEq, true_and] at hsame
  exact ⟨rfl, hsame⟩

theorem isOpen_concat_iff {notice : Notice} :
    IsOpen (heard ++ [notice]) id ↔
      (∃ name values, notice = .opened id name values) ∨
        (IsOpen heard id ∧ notice ≠ .closed id) := by
  simp only [IsOpen, openSince_concat_iff]
  constructor
  · intro h
    obtain ⟨i, name, values, ⟨-, hnotice⟩ | ⟨hopen, hnotice⟩⟩ := h
    · exact .inl ⟨name, values, hnotice⟩
    · exact .inr ⟨⟨i, name, values, hopen⟩, hnotice⟩
  · intro h
    obtain ⟨name, values, hnotice⟩ | ⟨⟨i, name, values, hopen⟩, hnotice⟩ := h
    · exact ⟨heard.length, name, values, .inl ⟨rfl, hnotice⟩⟩
    · exact ⟨i, name, values, .inr ⟨hopen, hnotice⟩⟩

theorem not_isOpen_nil : ¬ IsOpen [] id := by
  intro h
  obtain ⟨i, name, values, hopened, -⟩ := h
  simp at hopened

/-- A recorder keeps a span under exactly the numbers that are open. -/
theorem isSome_lookup_iff : ((ofHistory heard).live.lookup id).isSome ↔ IsOpen heard id := by
  induction heard using List.reverseRecOn with
  | nil => simpa [ofHistory, empty] using not_isOpen_nil
  | append_singleton heard notice ih =>
    rw [ofHistory_concat, isOpen_concat_iff]
    cases notice with
    | opened other name values =>
      rw [hear, lookup_opened, Option.isSome_or, Bool.or_eq_true, ih]
      by_cases h : id = other <;> simp [h, eq_comm]
    | recorded other values =>
      rw [hear, lookup_recorded, apply_ite Option.isSome, Option.isSome_map, ite_self, ih]
      simp
    | closed other =>
      rw [hear, lookup_closed]
      by_cases h : id = other
      · simp [h]
      · rw [if_neg h, ih]
        simp [Ne.symm h]
    | emitted level target values => simpa [hear, emitted] using ih

theorem lookup_eq_none_iff : (ofHistory heard).live.lookup id = none ↔ ¬ IsOpen heard id := by
  rw [← isSome_lookup_iff, Option.not_isSome_iff_eq_none]

instance : Decidable (IsOpen heard id) := decidable_of_iff _ isSome_lookup_iff

/-- What is shown of a span that was opened there, with all that has been recorded on it. -/
def spanSince (heard : List Notice) (id i : ℕ) (name : String) (values : Fields) : SpanRecord :=
  ⟨name, Fields.setAll [] (values ++ recordedOn id (heard.drop (i + 1)))⟩

theorem spanSince_length (heard : List Notice) (notice : Notice) (name : String)
    (values : Fields) :
    spanSince (heard ++ [notice]) id heard.length name values =
      ⟨name, Fields.setAll [] values⟩ := by
  simp [spanSince, recordedOn]

theorem spanSince_concat {i : ℕ} (hi : i < heard.length) (notice : Notice) (name : String)
    (values : Fields) :
    spanSince (heard ++ [notice]) id i name values =
      ⟨name, (spanSince heard id i name values).fields.setAll (recordedOn id [notice])⟩ := by
  rw [spanSince, List.drop_append_of_le_length (by omega), recordedOn, List.flatMap_append,
    ← List.append_assoc, Fields.setAll_append]
  rfl

/-- What a recorder keeps of an open span is what has been set on it since it was opened. -/
theorem exists_openSince_of_lookup {span : SpanRecord}
    (h : (ofHistory heard).live.lookup id = some span) :
    ∃ i name values, OpenSince heard id i name values ∧
      span = spanSince heard id i name values := by
  induction heard using List.reverseRecOn generalizing span with
  | nil => cases h
  | append_singleton heard notice ih =>
    have hstays {before : SpanRecord} (hbefore : (ofHistory heard).live.lookup id = some before)
        (hnotice : notice ≠ .closed id) :
        ∃ i name values, OpenSince (heard ++ [notice]) id i name values ∧
          ⟨before.name, before.fields.setAll (recordedOn id [notice])⟩ =
            spanSince (heard ++ [notice]) id i name values := by
      obtain ⟨i, name, values, hopen, rfl⟩ := ih hbefore
      have hi := lt_length_of_getElem? hopen.opened
      exact ⟨i, name, values, openSince_concat_iff.mpr (.inr ⟨hopen, hnotice⟩),
        (spanSince_concat hi notice name values).symm⟩
    rw [ofHistory_concat] at h
    cases notice with
    | opened other name values =>
      rw [hear, lookup_opened, Option.or_eq_some_iff] at h
      rcases h with h | ⟨-, h⟩
      · exact hstays h (by simp)
      · split_ifs at h with hother
        subst hother
        cases h
        exact ⟨heard.length, name, values, openSince_concat_iff.mpr (.inl ⟨rfl, rfl⟩),
          (spanSince_length heard _ name values).symm⟩
    | recorded other values =>
      rw [hear, lookup_recorded] at h
      split_ifs at h with hother
      · subst hother
        obtain ⟨before, hbefore, rfl⟩ := Option.map_eq_some_iff.mp h
        simpa [recordedOn] using hstays hbefore (by simp)
      · have hnone : recordedOn id [.recorded other values] = [] := by
          simp [recordedOn, Ne.symm hother]
        simpa [hnone, Fields.setAll] using hstays h (by simp)
    | closed other =>
      rw [hear, lookup_closed] at h
      split_ifs at h with hother
      exact hstays h (by simpa using Ne.symm hother)
    | emitted level target values => exact hstays h (by simp)

theorem distinct_concat_iff {notice : Notice} :
    Distinct (heard ++ [notice]) ↔ Distinct heard ∧
      ∀ id name values, notice = .opened id name values → ¬ IsOpen heard id := by
  constructor
  · intro h
    constructor
    · intro i id name values hopened
      have hi := lt_length_of_getElem? hopened
      have hat := h i id name values (getElem?_concat_eq_some_iff.mpr (.inl hopened))
      rwa [List.take_append_of_le_length (by omega)] at hat
    · intro id name values hnotice
      have hat := h heard.length id name values
        (getElem?_concat_eq_some_iff.mpr (.inr ⟨rfl, hnotice⟩))
      rwa [List.take_left] at hat
  · intro h i id name values hopened
    obtain ⟨hbefore, hnotice⟩ := h
    rcases getElem?_concat_eq_some_iff.mp hopened with hopened | ⟨hi, hlast⟩
    · have hi := lt_length_of_getElem? hopened
      rw [List.take_append_of_le_length (by omega)]
      exact hbefore i id name values hopened
    · rw [hi, List.take_left]
      exact hnotice id name values hlast

/-- The number under which a notice opens a span. -/
def opens? : Notice → Option ℕ
  | .opened id _ _ => some id
  | _ => none

theorem distinct_iff_forall_lt :
    Distinct heard ↔ ∀ i, ∀ hi : i < heard.length, ∀ id ∈ opens? heard[i],
      ¬ IsOpen (heard.take i) id := by
  constructor
  · intro h i hi id hid
    have hopened : heard[i]? = some heard[i] := List.getElem?_eq_getElem hi
    cases hnotice : heard[i] with
    | opened other name values =>
      obtain rfl : other = id := by simpa [hnotice, opens?] using hid
      exact h i other name values (hopened.trans (congrArg some hnotice))
    | recorded | closed | emitted => simp [hnotice, opens?] at hid
  · intro h i id name values hopened
    obtain ⟨hi, hnotice⟩ := List.getElem?_eq_some_iff.mp hopened
    exact h i hi id (by simp [hnotice, opens?])

instance : Decidable (Distinct heard) := decidable_of_iff _ distinct_iff_forall_lt.symm

/-! ### What has closed -/

/-- A span with the places at which it was opened and closed. -/
@[ext] structure Lifetime where
  id : ℕ
  name : String
  values : Fields
  opening : ℕ
  closing : ℕ

namespace Lifetime

/-- The closing closes what was opened there and has not been closed before. -/
structure IsIn (heard : List Notice) (l : Lifetime) : Prop where
  closed : heard[l.closing]? = some (.closed l.id)
  openSince : OpenSince (heard.take l.closing) l.id l.opening l.name l.values

/-- All values set on the span while it was open. -/
def written (heard : List Notice) (l : Lifetime) : Fields :=
  l.values ++ recordedOn l.id ((heard.take l.closing).drop (l.opening + 1))

/-- The span has its name from the opening, and in each field the value last set. -/
structure Shows (heard : List Notice) (l : Lifetime) (span : SpanRecord) : Prop where
  name_eq : span.name = l.name
  get?_eq : ∀ field, span.fields.get? field = Fields.lastValue? (l.written heard) field

variable {l : Lifetime} {span : SpanRecord} {notice : Notice}

theorem IsIn.closing_lt (h : l.IsIn heard) : l.closing < heard.length :=
  lt_length_of_getElem? h.closed

theorem isIn_concat_iff :
    l.IsIn (heard ++ [notice]) ↔ l.IsIn heard ∨ (l.closing = heard.length ∧
      notice = .closed l.id ∧ OpenSince heard l.id l.opening l.name l.values) := by
  constructor
  · intro h
    obtain ⟨hclosed, hopen⟩ := h
    rcases getElem?_concat_eq_some_iff.mp hclosed with hclosed | ⟨hl, hlast⟩
    · have hl := lt_length_of_getElem? hclosed
      rw [List.take_append_of_le_length (by omega)] at hopen
      exact .inl ⟨hclosed, hopen⟩
    · rw [hl, List.take_left] at hopen
      exact .inr ⟨hl, hlast, hopen⟩
  · intro h
    rcases h with h | ⟨hl, hlast, hopen⟩
    · refine ⟨getElem?_concat_eq_some_iff.mpr (.inl h.closed), ?_⟩
      rw [List.take_append_of_le_length (Nat.le_of_lt h.closing_lt)]
      exact h.openSince
    · refine ⟨getElem?_concat_eq_some_iff.mpr (.inr ⟨hl, hlast⟩), ?_⟩
      rw [hl, List.take_left]
      exact hopen

/-- What comes after the closing changes nothing any more. -/
theorem Shows.concat (h : l.Shows heard span) (hl : l.closing ≤ heard.length)
    (notice : Notice) : l.Shows (heard ++ [notice]) span := by
  refine ⟨h.name_eq, ?_⟩
  rw [written, List.take_append_of_le_length hl]
  exact h.get?_eq

theorem shows_spanSince (heard : List Notice) (notice : Notice) (id i : ℕ) (name : String)
    (values : Fields) :
    Shows (heard ++ [notice]) ⟨id, name, values, i, heard.length⟩
      (spanSince heard id i name values) := by
  refine ⟨rfl, ?_⟩
  intro field
  rw [spanSince, Fields.get?_setAll_nil, written, List.take_left]

end Lifetime

/-- The span that a notice closes. -/
def ending? (r : Recorder) : Notice → Option SpanRecord
  | .closed id => r.live.lookup id
  | _ => none

theorem spans_hear (r : Recorder) (notice : Notice) :
    (r.hear notice).journal.spans = r.journal.spans ++ (r.ending? notice).toList := by
  cases notice with
  | closed id =>
    simp only [hear, closed, ending?]
    cases r.live.lookup id <;> simp [Journal.ofSpan]
  | opened id name values => simp [hear, opened, ending?]
  | recorded id values => simp [hear, recorded, ending?]
  | emitted level target values => simp [hear, emitted, ending?, Journal.ofEvent]

/-- The spans of the journal are those that have closed, in closing order. -/
theorem exists_lifetimes (hdistinct : Distinct heard) :
    ∃ lives : List Lifetime, lives.Pairwise (fun l k => l.closing < k.closing) ∧
      (∀ l, l ∈ lives ↔ l.IsIn heard) ∧
      List.Forall₂ (Lifetime.Shows heard) lives (ofHistory heard).journal.spans := by
  induction heard using List.reverseRecOn with
  | nil =>
    refine ⟨[], .nil, ?_, .nil⟩
    intro l
    simp only [List.not_mem_nil, false_iff]
    exact fun hl => absurd hl.closing_lt (Nat.not_lt_zero _)
  | append_singleton heard notice ih =>
    obtain ⟨hbefore, -⟩ := distinct_concat_iff.mp hdistinct
    obtain ⟨lives, hsorted, hmem, hspans⟩ := ih hbefore
    have hlater : List.Forall₂ (Lifetime.Shows (heard ++ [notice])) lives
        (ofHistory heard).journal.spans := by
      have hboth := (List.forall₂_and_left lives _).mpr ⟨fun l hl => (hmem l).mp hl, hspans⟩
      exact hboth.imp fun l span h => h.2.concat (Nat.le_of_lt h.1.closing_lt) notice
    rw [ofHistory_concat, spans_hear]
    cases hending : (ofHistory heard).ending? notice with
    | none =>
      refine ⟨lives, hsorted, ?_, by simpa using hlater⟩
      intro l
      rw [hmem, Lifetime.isIn_concat_iff, or_iff_left]
      intro h
      obtain ⟨-, rfl, hopen⟩ := h
      exact lookup_eq_none_iff.mp hending ⟨_, _, _, hopen⟩
    | some span =>
      obtain ⟨id, rfl, hlookup⟩ : ∃ id, notice = .closed id ∧
          (ofHistory heard).live.lookup id = some span := by
        cases notice with
        | closed id => exact ⟨id, rfl, hending⟩
        | opened | recorded | emitted => cases hending
      obtain ⟨i, name, values, hopen, rfl⟩ := exists_openSince_of_lookup hlookup
      refine ⟨lives ++ [⟨id, name, values, i, heard.length⟩], ?_, ?_, ?_⟩
      · rw [List.pairwise_append]
        refine ⟨hsorted, List.pairwise_singleton _ _, ?_⟩
        intro l hl k hk
        rw [List.mem_singleton] at hk
        rw [hk]
        exact ((hmem l).mp hl).closing_lt
      · intro l
        rw [List.mem_append, List.mem_singleton, hmem, Lifetime.isIn_concat_iff]
        refine or_congr_right ?_
        constructor
        · intro h
          subst h
          exact ⟨rfl, rfl, hopen⟩
        · intro h
          obtain ⟨hclosing, hid, hopen'⟩ := h
          obtain rfl : id = l.id := by simpa using hid
          obtain ⟨hi, hname, hvalues⟩ := hbefore.openSince_unique hopen' hopen
          exact Lifetime.ext rfl hname hvalues hi hclosing
      · exact List.rel_append hlater (.cons (Lifetime.shows_spanSince ..) .nil)

/-! ### Events -/

/-- The event has its own fields, each with the value that is given last. -/
structure Reports (notice : Notice) (event : EventRecord) (values : Fields) : Prop where
  notice_eq : notice = .emitted event.level event.target values
  get?_eq : ∀ field, event.fields.get? field = Fields.lastValue? values field

def isEvent : Notice → Bool
  | .emitted .. => true
  | _ => false

theorem forall₂_events (heard : List Notice) :
    List.Forall₂ (fun notice event => ∃ values, Reports notice event values)
      (heard.filter isEvent) (ofHistory heard).journal.events := by
  induction heard using List.reverseRecOn with
  | nil => exact .nil
  | append_singleton heard notice ih =>
    rw [ofHistory_concat, List.filter_append]
    cases notice with
    | opened id name values => simpa [hear, opened, isEvent] using ih
    | recorded id values => simpa [hear, recorded, isEvent] using ih
    | closed id =>
      simp only [hear, closed]
      cases (ofHistory heard).live.lookup id <;> simpa [Journal.ofSpan, isEvent] using ih
    | emitted level target values =>
      have hevent : Reports (.emitted level target values)
          ⟨level, target, Fields.setAll [] values⟩ values := ⟨rfl, Fields.get?_setAll_nil values⟩
      exact List.rel_append ih (.cons ⟨values, hevent⟩ .nil)

/-! ### What leaves no trace -/

/-- What is recorded under a number that is not open is not kept at all. -/
theorem recorded_of_lookup_eq_none (h : r.live.lookup id = none) (values : Fields) :
    r.recorded id values = r := by
  have hlive : (r.recorded id values).live = r.live := by
    refine map_at_of_forall_ne (fun span : SpanRecord => ⟨span.name, span.fields.setAll values⟩) ?_
    intro entry hentry
    exact (bne_iff_ne.mp (List.lookup_eq_none_iff.mp h entry hentry)).symm
  calc r.recorded id values = ⟨(r.recorded id values).live, r.journal⟩ := rfl
    _ = r := by rw [hlive]

/-- The recorders differ at most in what they keep under one number. -/
structure AgreeApartFrom (id : ℕ) (r r' : Recorder) : Prop where
  journal_eq : r.journal = r'.journal
  live_eq : (r.live.filter fun entry => entry.1 ≠ id) = r'.live.filter fun entry => entry.1 ≠ id

namespace AgreeApartFrom

variable {r' : Recorder}

theorem lookup_eq (h : AgreeApartFrom id r r') {other : ℕ} (hother : other ≠ id) :
    r.live.lookup other = r'.live.lookup other := by
  have hlookup (entries : List (ℕ × SpanRecord)) :
      (entries.filter fun entry => entry.1 ≠ id).lookup other = entries.lookup other := by
    have hkeep := lookup_filter_fst entries (fun i => decide (i ≠ id)) other
    rwa [if_pos (by simpa using hother)] at hkeep
  rw [← hlookup r.live, h.live_eq, hlookup]

theorem opened_left (r : Recorder) (id : ℕ) (name : String) (values : Fields) :
    AgreeApartFrom id (r.opened id name values) r :=
  ⟨rfl, by simp [opened]⟩

theorem filter_recorded (r : Recorder) (other : ℕ) (values : Fields) :
    ((r.recorded other values).live.filter fun entry => entry.1 ≠ id) =
      ((r.live.filter fun entry => entry.1 ≠ id).map fun entry =>
        if entry.1 = other then (entry.1, ⟨entry.2.name, entry.2.fields.setAll values⟩)
        else entry) := by
  refine List.filter_map.trans ?_
  congr 1
  refine List.filter_congr ?_
  intro entry _
  simp only [Function.comp]
  split_ifs <;> rfl

theorem recorded_left (r : Recorder) (id : ℕ) (values : Fields) :
    AgreeApartFrom id (r.recorded id values) r := by
  refine ⟨rfl, ?_⟩
  rw [filter_recorded]
  refine map_at_of_forall_ne (fun span : SpanRecord => ⟨span.name, span.fields.setAll values⟩) ?_
  intro entry hentry
  simpa using (List.mem_filter.mp hentry).2

theorem hear (h : AgreeApartFrom id r r') {notice : Notice} (hnotice : notice ≠ .closed id) :
    AgreeApartFrom id (r.hear notice) (r'.hear notice) := by
  cases notice with
  | opened other name values =>
    refine ⟨h.journal_eq, ?_⟩
    simp only [Recorder.hear, opened, List.filter_append, h.live_eq]
  | recorded other values =>
    refine ⟨h.journal_eq, ?_⟩
    rw [Recorder.hear, Recorder.hear, filter_recorded, filter_recorded, h.live_eq]
  | closed other =>
    have hother : other ≠ id := by simpa using hnotice
    rw [Recorder.hear, Recorder.hear, closed, closed, h.lookup_eq hother]
    cases r'.live.lookup other with
    | none => exact h
    | some span =>
      have hcomm (entries : List (ℕ × SpanRecord)) :
          ((entries.filter fun entry => entry.1 ≠ other).filter fun entry => entry.1 ≠ id) =
            (entries.filter fun entry => entry.1 ≠ id).filter fun entry => entry.1 ≠ other := by
        simp only [List.filter_filter, Bool.and_comm]
      refine ⟨by rw [h.journal_eq], ?_⟩
      exact (hcomm r.live).trans ((congrArg _ h.live_eq).trans (hcomm r'.live).symm)
  | emitted level target values =>
    exact ⟨by rw [Recorder.hear, Recorder.hear, emitted, emitted, h.journal_eq], h.live_eq⟩

theorem foldl_hear (h : AgreeApartFrom id r r') {later : List Notice}
    (hlater : .closed id ∉ later) :
    AgreeApartFrom id (later.foldl Recorder.hear r) (later.foldl Recorder.hear r') := by
  induction later generalizing r r' with
  | nil => exact h
  | cons notice later ih =>
    rw [List.mem_cons, not_or] at hlater
    exact ih (h.hear (Ne.symm hlater.1)) hlater.2

end AgreeApartFrom

/-- The journal tells what was heard: of each span that has closed, in closing order, and of each
event, in order. -/
structure Chronicle (heard : List Notice) (j : Journal) : Prop where
  spans : ∃ lives : List Lifetime, lives.Pairwise (fun l k => l.closing < k.closing) ∧
    (∀ l, l ∈ lives ↔ l.IsIn heard) ∧ List.Forall₂ (Lifetime.Shows heard) lives j.spans
  events : List.Forall₂ (fun notice event => ∃ values, Reports notice event values)
    (heard.filter isEvent) j.events

/-- If numbers are used again only after their spans have closed, the journal is the chronicle of
what was heard. A recording under a number that is not open is as if it had not been made. Nor does
the journal know of a span that does not close: neither of its opening nor of what is recorded on
it. A span looked up by name is the first of that name. -/
theorem chronicle_ofHistory (hdistinct : Distinct heard) :
    Chronicle heard (ofHistory heard).journal ∧
    (∀ earlier id values later, heard = earlier ++ .recorded id values :: later →
      ¬ IsOpen earlier id → ofHistory heard = ofHistory (earlier ++ later)) ∧
    (∀ earlier notice id later, heard = earlier ++ notice :: later →
      (∃ name values, notice = .opened id name values) ∨ (∃ values, notice = .recorded id values) →
      Notice.closed id ∉ later →
      (ofHistory heard).journal = (ofHistory (earlier ++ later)).journal) ∧
    ∀ name,
      (∀ span, (ofHistory heard).journal.spanNamed? name = some span ↔
        (ofHistory heard).journal.FirstNamed name span) ∧
      ((ofHistory heard).journal.spanNamed? name = none ↔
        ∀ span ∈ (ofHistory heard).journal.spans, span.name ≠ name) := by
  refine ⟨⟨exists_lifetimes hdistinct, forall₂_events heard⟩, ?_, ?_, ?_⟩
  · intro earlier id values later hheard hopen
    have hsame := recorded_of_lookup_eq_none (lookup_eq_none_iff.mpr hopen) values
    rw [hheard, ofHistory, List.foldl_append, List.foldl_cons, ← ofHistory, hear, hsame,
      ofHistory, ofHistory, List.foldl_append]
  · intro earlier notice id later hheard hnotice hlater
    have hagree : AgreeApartFrom id ((ofHistory earlier).hear notice) (ofHistory earlier) := by
      rcases hnotice with ⟨name, values, rfl⟩ | ⟨values, rfl⟩
      · exact .opened_left ..
      · exact .recorded_left ..
    rw [hheard, ofHistory, ofHistory, List.foldl_append, List.foldl_append, List.foldl_cons]
    exact (hagree.foldl_hear hlater).journal_eq
  · intro name
    exact ⟨fun span => Journal.spanNamed?_eq_some_iff, Journal.spanNamed?_eq_none_iff⟩

/-- The number 1 is used for two spans. The first one closes before the span that was opened inside
it, and what is recorded on it afterwards is too late; a third span is left open. -/
def overlapping : List Notice :=
  [.opened 1 "alpha" [("count", "1")], .opened 2 "beta" [],
    .recorded 1 [("flag", "true"), ("count", "2")],
    .emitted .info "oracle" [("message", "first"), ("message", "second")], .closed 1,
    .recorded 1 [("count", "9")], .opened 1 "beta" [("label", "x")], .recorded 2 [("delta", "-1")],
    .closed 1, .opened 3 "gamma" [], .closed 2]

theorem chronicle_overlapping :
    Distinct overlapping ∧ Chronicle overlapping (ofHistory overlapping).journal ∧
      (ofHistory overlapping).journal =
        ⟨[⟨"alpha", [("flag", "true"), ("count", "2")]⟩, ⟨"beta", [("label", "x")]⟩,
          ⟨"beta", [("delta", "-1")]⟩], [⟨.info, "oracle", [("message", "second")]⟩]⟩ ∧
      ¬ IsOpen (overlapping.take 5) 1 ∧
      ofHistory overlapping = ofHistory (overlapping.take 5 ++ overlapping.drop 6) ∧
      .closed 3 ∉ overlapping.drop 10 ∧
      (ofHistory overlapping).journal =
        (ofHistory (overlapping.take 9 ++ overlapping.drop 10)).journal := by
  have hdistinct : Distinct overlapping := by decide
  have hlate : ¬ IsOpen (overlapping.take 5) 1 := by decide
  have hopen : Notice.closed 3 ∉ overlapping.drop 10 := by decide
  obtain ⟨hchronicle, hrecorded, hopened, -⟩ := chronicle_ofHistory hdistinct
  exact ⟨hdistinct, hchronicle, by decide, hlate, hrecorded _ 1 [("count", "9")] _ rfl hlate, hopen,
    hopened _ (.opened 3 "gamma" []) 3 _ rfl (.inl ⟨"gamma", [], rfl⟩) hopen⟩

end Recorder

end ClassicAlgorithms
