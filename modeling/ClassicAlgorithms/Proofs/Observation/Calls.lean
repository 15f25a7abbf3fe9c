import ClassicAlgorithms.Proofs.CommandLine.Outcome

/-!
# The calls behind a trace

A trace is flat: the spans in closing order and the events in the order in which they were
emitted. Behind it are calls, one after the other and one inside the other. The span of a
call closes after those of the calls inside it, and so an error that is passed on is
reported by the innermost call first. Every observed computation is put together from a
few operations, and each of them keeps the trace in step with the calls.
-/
namespace ClassicAlgorithms

/-- What a failed call says of its error, and where. -/
structure Complaint where
  target : String
  text : String
deriving DecidableEq

namespace Complaint

def event (c : Complaint) : EventRecord := ⟨.error, c.target, [("error", c.text)]⟩

/-- A call complains exactly when it returns an error. -/
def of? {ε α : Type} (target : String) (describe : ε → String) : Except ε α → Option Complaint
  | .error e => some ⟨target, describe e⟩
  | .ok _ => none

end Complaint

/-- Calls one after the other. Each has the span that it leaves behind, its complaint if it
failed, and the calls that it made inside. -/
inductive Calls where
  | none
  | call (span : SpanRecord) (complaint : Option Complaint) (inner rest : Calls)

namespace Calls

/-- The calls of `c` and then those of `d`. -/
def append : (c d : Calls) → Calls
  | none, d => d
  | call span complaint inner rest, d => call span complaint inner (rest.append d)

/-- The spans in closing order: first those of the calls inside, then that of the call. -/
def spans : Calls → List SpanRecord
  | none => []
  | call span _ inner rest => inner.spans ++ span :: rest.spans

/-- The failed calls in the order in which they return, each with its complaint. -/
def failures : Calls → List (SpanRecord × Complaint)
  | none => []
  | call span complaint inner rest =>
    inner.failures ++ (complaint.toList.map (span, ·) ++ rest.failures)

@[simp] theorem append_none (c : Calls) : c.append none = c := by
  induction c with
  | none => rfl
  | call span complaint inner rest _ ih => rw [append, ih]

@[simp] theorem spans_append (c d : Calls) : (c.append d).spans = c.spans ++ d.spans := by
  induction c with
  | none => rfl
  | call span complaint inner rest _ ih =>
    simp only [append, spans, ih, List.append_assoc, List.cons_append]

@[simp] theorem failures_append (c d : Calls) :
    (c.append d).failures = c.failures ++ d.failures := by
  induction c with
  | none => rfl
  | call span complaint inner rest _ ih =>
    simp only [append, failures, ih, List.append_assoc]

end Calls

namespace Journal

/-- The events of one level, in order. -/
def atLevel (j : Journal) (level : Level) : List EventRecord :=
  j.events.filter fun event => event.level = level

@[simp] theorem atLevel_append (a b : Journal) (level : Level) :
    (a ++ b).atLevel level = a.atLevel level ++ b.atLevel level := by
  rw [atLevel, events_append, List.filter_append]
  rfl

@[simp] theorem atLevel_ofSpan (span : SpanRecord) (level : Level) :
    (ofSpan span).atLevel level = [] := rfl

theorem atLevel_ofEvent (event : EventRecord) (level : Level) :
    (ofEvent event).atLevel level = if event.level = level then [event] else [] := by
  unfold atLevel ofEvent
  split_ifs with h <;> simp [h]

end Journal

namespace Observed

variable {ε δ α β : Type}

section
variable {x : Observed ε α} {f : α → Observed ε β}

theorem bind_of_ok {a : α} (h : x.outcome = .ok a) :
    x >>= f = ⟨(f a).outcome, x.fields ++ (f a).fields, x.journal ++ (f a).journal⟩ := by
  show x.bind f = _
  simp only [Observed.bind, h]

theorem bind_of_error {e : ε} (h : x.outcome = .error e) :
    x >>= f = ⟨.error e, x.fields, x.journal⟩ := by
  show x.bind f = _
  simp only [Observed.bind, h]

end

/-- The trace of `x` is that of the calls: their spans in closing order, and one error event for
each that failed. Besides there are the `infos`. All complaints are about the error that `x`
returns. -/
structure Shows (describe : ε → String) (x : Observed ε α) (calls : Calls)
    (infos : List EventRecord) : Prop where
  spans_eq : x.journal.spans = calls.spans
  errors_eq : x.journal.atLevel .error = calls.failures.map fun (_, c) => c.event
  infos_eq : x.journal.atLevel .info = infos
  text_eq : ∀ p ∈ calls.failures, ∃ e, x.outcome = .error e ∧ p.2.text = describe e

namespace Shows

variable {describe : ε → String} {x : Observed ε α} {f : α → Observed ε β} {calls later : Calls}
  {infos more : List EventRecord}

/-- A computation that leaves no span and no error behind makes no call that shows. -/
theorem of_journal (hspans : x.journal.spans = []) (herrors : x.journal.atLevel .error = [])
    (hinfos : x.journal.atLevel .info = infos) : x.Shows describe .none infos where
  spans_eq := hspans
  errors_eq := herrors
  infos_eq := hinfos
  text_eq _ hp := absurd hp List.not_mem_nil

protected theorem ofExcept (describe : ε → String) (r : Except ε α) :
    (ofExcept r).Shows describe .none [] :=
  of_journal rfl rfl rfl

protected theorem pure (describe : ε → String) (a : α) :
    (pure a : Observed ε α).Shows describe .none [] :=
  of_journal rfl rfl rfl

protected theorem record (describe : ε → String) (name value : String) :
    (record name value).Shows describe .none [] :=
  of_journal rfl rfl rfl

theorem emit_info (describe : ε → String) (target message : String) (fields : Fields) :
    (emit (.withMessage .info target message fields)).Shows describe .none
      [.withMessage .info target message fields] :=
  of_journal rfl rfl rfl

theorem bind_ok (hx : x.Shows describe calls infos) {a : α} (ha : x.outcome = .ok a)
    (hf : (f a).Shows describe later more) :
    (x >>= f).Shows describe (calls.append later) (infos ++ more) := by
  rw [bind_of_ok ha]
  constructor
  · simp [hx.spans_eq, hf.spans_eq]
  · simp [hx.errors_eq, hf.errors_eq]
  · simp [hx.infos_eq, hf.infos_eq]
  · intro p hp
    rw [Calls.failures_append, List.mem_append] at hp
    rcases hp with hp | hp
    -- What has not failed has nothing to complain about.
    · obtain ⟨e, he, -⟩ := hx.text_eq p hp
      rw [ha] at he
      cases he
    · exact hf.text_eq p hp

theorem bind_error (hx : x.Shows describe calls infos) {e : ε} (he : x.outcome = .error e) :
    (x >>= f).Shows describe calls infos := by
  rw [bind_of_error he]
  refine ⟨hx.spans_eq, hx.errors_eq, hx.infos_eq, ?_⟩
  intro p hp
  obtain ⟨e', he', htext⟩ := hx.text_eq p hp
  obtain rfl : e = e' := Except.error.inj (he.symm.trans he')
  exact ⟨e, rfl, htext⟩

/-- An error keeps its text when it is wrapped. -/
theorem mapError {g : ε → δ} {describe' : δ → String} (hx : x.Shows describe calls infos)
    (htext : ∀ e, describe' (g e) = describe e) :
    (x.mapError g).Shows describe' calls infos where
  spans_eq := hx.spans_eq
  errors_eq := hx.errors_eq
  infos_eq := hx.infos_eq
  text_eq p hp := by
    obtain ⟨e, he, hpe⟩ := hx.text_eq p hp
    refine ⟨g e, ?_, hpe.trans (htext e).symm⟩
    rw [outcome_mapError, he]
    rfl

/-- A span alone adds no complaint to those of the calls inside. -/
protected theorem inSpan (hx : x.Shows describe calls infos) {name : String}
    {opened fields : Fields} (hfields : Fields.setAll opened x.fields = fields) :
    (inSpan name opened x).Shows describe (.call ⟨name, fields⟩ none calls .none) infos where
  spans_eq := by
    show x.journal.spans ++ [_] = calls.spans ++ [_]
    rw [hx.spans_eq, hfields]
  errors_eq := by
    show (x.journal ++ Journal.ofSpan _).atLevel .error = (calls.failures ++ []).map _
    simp [hx.errors_eq]
  infos_eq := by
    show (x.journal ++ Journal.ofSpan _).atLevel .info = _
    simp [hx.infos_eq]
  text_eq p hp := by
    have hnone : calls.failures ++ [] = calls.failures := List.append_nil _
    exact hx.text_eq p (hnone ▸ hp)

/-- A span around a computation whose failure is reported: the calls inside come first, and the
error is that of the last one of them to fail. -/
theorem inSpan_reporting (hx : x.Shows describe calls infos) {r : Except ε α}
    (hr : x.outcome = r) {name target : String} {opened fields : Fields}
    (hfields : Fields.setAll opened x.fields = fields) :
    (inSpan name opened (reporting target describe x)).Shows describe
      (.call ⟨name, fields⟩ (Complaint.of? target describe r) calls .none) infos := by
  subst hr
  cases h : x.outcome with
  | ok a =>
    have hsilent : reporting target describe x = x := by
      simp only [reporting, h]
    rw [hsilent]
    exact hx.inSpan hfields
  | error e =>
    have hreport : (inSpan name opened (reporting target describe x)).journal =
        x.journal ++ .ofEvent (Complaint.event ⟨target, describe e⟩) ++
          .ofSpan ⟨name, fields⟩ := by
      simp only [inSpan, reporting, h, hfields, Complaint.event]
    constructor
    · simp [hreport, hx.spans_eq, Calls.spans, Journal.ofEvent, Journal.ofSpan]
    · simp [hreport, hx.errors_eq, Calls.failures, Complaint.of?, Journal.atLevel_ofEvent,
        Complaint.event]
    · simp [hreport, hx.infos_eq, Journal.atLevel_ofEvent, Complaint.event]
    · intro p hp
      simp only [Calls.failures, Complaint.of?, Option.toList_some, List.map_cons, List.map_nil,
        List.append_nil, List.mem_append, List.mem_singleton] at hp
      rw [outcome_inSpan, outcome_reporting]
      rcases hp with hp | rfl
      · exact hx.text_eq p hp
      · exact ⟨e, h, rfl⟩

end Shows

end Observed

end ClassicAlgorithms
