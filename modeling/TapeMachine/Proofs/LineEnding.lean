import Mathlib
import TapeMachine.Proofs.Printing

/-!
# A writer knows how its sink ends

A line writer remembers one bit about its sink, and by that bit it decides whether a line feed is
missing. The bit has to be right after any history: the sink may refuse any write and any flush, chunks
may be empty, the line feed may be accepted and its flush refused, and the writer may be used again after
it was closed.

## The model

`Call` is a call on a writer, and `Call.make` what it raises, the writer it leaves and what it tells.
`parts` reads off a history what was added to the sink: `Part.chunk` for a write of some bytes that raised
nothing, and `Part.ending` for a closing call that added anything.

## What is proved

* `Added.after_call`: a call adds its part, and the bit stays right. Only where no line feed was written last
  is a line ended.
* `Call.make_of_endsLine`: a closing call does nothing once the last line is ended, and
  `endsLine_foldl` says how long it stays ended.
* `writer_tracks_sink`: all of it, after any calls.
-/

namespace TapeMachine.LineWriter

/-! ### Calls -/

/-- A call on a writer. -/
inductive Call where
  /-- Write a chunk of bytes. -/
  | write (data : List UInt8)
  /-- Flush the sink. -/
  | flush
  /-- End the last line. -/
  | finalize
  /-- End the use of the writer, which had failed or not. -/
  | exit (failed : Bool)

/-- The failure of a result. -/
def failure? {α : Type} : Except Failure α → Option Failure
  | .error f => some f
  | .ok _ => none

namespace Call

/-- What a call raises, the writer that it leaves, and the events that it tells. -/
def make (w : LineWriter) : Call → Option Failure × LineWriter × List Event
  | .write data => (failure? (w.write data).1, (w.write data).2, [])
  | .flush => (failure? w.flush.1, w.flush.2, [])
  | .finalize => (failure? w.finalize.1, w.finalize.2, [])
  | .exit failed => w.exit failed

/-- The writer that a call leaves, whatever it raises. -/
def leaves (w : LineWriter) (c : Call) : LineWriter := (c.make w).2.1

/-- The call is one of those that end the last line. -/
def Closes : Call → Prop
  | .write _ | .flush => False
  | .finalize | .exit _ => True

theorem leaves_of_closes {c : Call} (hc : c.Closes) (w : LineWriter) :
    c.leaves w = w.finalize.2 := by
  cases c with
  | write data => exact hc.elim
  | flush => exact hc.elim
  | finalize => rfl
  | exit failed => exact exit_snd w failed

/-- **A closing call does nothing once the last line is ended.** It makes no call on the sink, raises
nothing and tells nothing. -/
theorem make_of_endsLine {c : Call} (hc : c.Closes) {w : LineWriter} (h : w.endsLine = true) :
    c.make w = (none, w, []) := by
  have hfinalize : w.finalize = (.ok (), w) := if_pos h
  cases c with
  | write data => exact hc.elim
  | flush => exact hc.elim
  | finalize => rw [make, hfinalize]; rfl
  | exit failed => rw [make, LineWriter.exit, hfinalize]

end Call

/-! ### What a history adds -/

/-- What a call adds to the bytes of a sink. -/
inductive Part where
  /-- A chunk of bytes. -/
  | chunk (data : List UInt8)
  /-- The line feed that ends the last line. -/
  | ending

/-- The bytes of a part. -/
def Part.bytes : Part → List UInt8
  | .chunk data => data
  | .ending => [newline]

/-- The chunk that a part is. -/
def Part.chunk? : Part → Option (List UInt8)
  | .chunk data => some data
  | .ending => none

/-- What a call adds: its bytes, if there are any and it raises nothing, or the end of a line, if it is a
closing call and changes the bytes of the sink. -/
def Call.part? (w : LineWriter) (c : Call) : Option Part :=
  match c with
  | .write data => if data ≠ [] ∧ (c.make w).1 = none then some (.chunk data) else none
  | .flush => none
  | .finalize | .exit _ =>
    if (c.leaves w).sink.bytes = w.sink.bytes then none else some .ending

/-- What a history adds, in order. -/
def parts (w : LineWriter) : List Call → List Part
  | [] => []
  | c :: calls => (c.part? w).toList ++ parts (c.leaves w) calls

/-- The chunks that a history adds, in order: those of the writes of some bytes that raise nothing. -/
def chunks (w : LineWriter) (calls : List Call) : List (List UInt8) :=
  (parts w calls).filterMap Part.chunk?

/-! ### One call -/

theorem write_of_writeFault {w : LineWriter} {f : Failure}
    (h : w.sink.writeFault w.sink.writes = some f) (data : List UInt8) :
    w.write data = (.error f, ⟨w.sink.refused data, w.endsLine⟩) := by
  simp only [write, Sink.write, h, Sink.refused]

theorem write_of_none {w : LineWriter} (h : w.sink.writeFault w.sink.writes = none)
    (data : List UInt8) :
    ∃ k, k.bytes = w.sink.bytes ++ data ∧
      w.write data = (.ok data.length, ⟨k, (data.getLast?.map (· == newline)).getD w.endsLine⟩) := by
  refine ⟨{ w.sink with
    written := data.reverse ++ w.sink.written
    calls := .write data :: w.sink.calls
    writes := w.sink.writes + 1 }, by simp [Sink.bytes], ?_⟩
  simp only [write, Sink.write, h]
  cases data.getLast? <;> rfl

/-- A write that is refused leaves the bytes and the bit alone, and any other adds its bytes. -/
theorem Added.after_write {old added : List UInt8} {w : LineWriter} (h : Added old added w)
    (data : List UInt8) :
    (∃ f, (w.write data).1 = .error f ∧ Added old added (w.write data).2) ∨
      (w.write data).1 = .ok data.length ∧ Added old (added ++ data) (w.write data).2 := by
  cases hw : w.sink.writeFault w.sink.writes with
  | some f =>
    rw [write_of_writeFault hw]
    exact .inl ⟨f, rfl, h.bytes, h.endsLine⟩
  | none =>
    obtain ⟨k, hk, hwrite⟩ := write_of_none hw data
    rw [hwrite]
    refine .inr ⟨rfl, by rw [hk, h.bytes, List.append_assoc], ?_⟩
    cases hlast : data.getLast? with
    | none =>
      -- an empty chunk is accepted, and the last byte is still the one before
      rw [List.getLast?_eq_none_iff.1 hlast, List.append_nil]
      exact h.endsLine
    | some b => simp [List.getLast?_append, hlast]

theorem Added.after_flush {old added : List UInt8} {w : LineWriter} (h : Added old added w) :
    Added old added w.flush.2 := by
  unfold LineWriter.flush Sink.flush
  cases w.sink.flushFault w.sink.flushes with
  | some f => exact ⟨h.bytes, h.endsLine⟩
  | none => exact ⟨h.bytes, h.endsLine⟩

/-- The bit is right also when the line feed was accepted and then not flushed. -/
theorem Added.after_finalize {old added : List UInt8} {w : LineWriter} (h : Added old added w) :
    Added old (added ++ lineEnd (w.sink.writeFault w.sink.writes) added) w.finalize.2 := by
  refine ⟨h.bytes_finalize, ?_⟩
  unfold LineWriter.finalize
  by_cases hline : w.endsLine = true
  · have hlast := h.endsLine.1 hline
    rw [if_pos hline, lineEnd, if_neg fun hne => hne.1 hlast, List.append_nil]
    exact h.endsLine
  · have hlast : added.getLast? ≠ some newline := mt h.endsLine.2 hline
    rw [if_neg hline]
    cases hw : w.sink.writeFault w.sink.writes with
    | some f =>
      rw [writeThrough_of_writeFault hw, lineEnd, if_neg fun hne => Option.some_ne_none f hne.2,
        List.append_nil]
      exact h.endsLine
    | none =>
      rw [lineEnd, if_pos ⟨hlast, rfl⟩]
      cases hf : w.sink.flushFault w.sink.flushes with
      | some f => rw [writeThrough_of_flushFault hw hf]; simp
      | none => rw [writeThrough_of_none hw hf]; simp

theorem Call.closes_of_part? {c : Call} {w : LineWriter} (h : c.part? w = some .ending) :
    c.Closes := by
  cases c with
  | write data =>
    rw [part?] at h
    split at h <;> cases h
  | flush => cases h
  | finalize => trivial
  | exit failed => trivial

/-- A closing call ends the last line if it is not ended, unless the line feed is refused. -/
theorem Added.part?_of_closes {old added : List UInt8} {w : LineWriter} (h : Added old added w)
    {c : Call} (hc : c.Closes) :
    c.part? w = if added.getLast? ≠ some newline ∧ w.sink.writeFault w.sink.writes = none
      then some .ending else none := by
  have hpart : c.part? w =
      if (c.leaves w).sink.bytes = w.sink.bytes then none else some .ending := by
    cases c with
    | write data => exact hc.elim
    | flush => exact hc.elim
    | finalize => rfl
    | exit failed => rfl
  rw [hpart, Call.leaves_of_closes hc, h.after_finalize.bytes, h.bytes, lineEnd]
  split <;> simp

/-- **What a call adds.** It adds the bytes of its part, and the bit stays right. -/
theorem Added.after_call {old added : List UInt8} {w : LineWriter} (h : Added old added w) (c : Call) :
    Added old (added ++ (c.part? w).toList.flatMap Part.bytes) (c.leaves w) := by
  have hclosing : ∀ {c : Call}, c.Closes →
      Added old (added ++ (c.part? w).toList.flatMap Part.bytes) (c.leaves w) := by
    intro c hc
    have hfinalize := h.after_finalize
    rw [Call.leaves_of_closes hc, h.part?_of_closes hc]
    unfold lineEnd at hfinalize
    split
    · next hends => simpa [hends, Part.bytes] using hfinalize
    · next hends => simpa [hends] using hfinalize
  cases c with
  | write data =>
    rcases h.after_write data with ⟨f, hfault, hadded⟩ | ⟨hok, hadded⟩
    · simpa [Call.part?, Call.make, Call.leaves, hfault, failure?] using hadded
    · by_cases hdata : data = []
      · subst hdata
        simpa [Call.part?, Call.leaves, Call.make] using hadded
      · simpa [Call.part?, Call.make, Call.leaves, hok, failure?, hdata, Part.bytes] using hadded
  | flush => simpa [Call.part?, Call.leaves, Call.make] using h.after_flush
  | finalize => exact hclosing trivial
  | exit failed => exact hclosing trivial

/-! ### Histories -/

theorem Added.after_calls {old added : List UInt8} {w : LineWriter} (h : Added old added w)
    (calls : List Call) :
    Added old (added ++ (parts w calls).flatMap Part.bytes) (calls.foldl Call.leaves w) := by
  induction calls generalizing added w with
  | nil => simpa [parts] using h
  | cons c calls ih =>
    have hrest := ih (h.after_call c)
    rwa [List.append_assoc, ← List.flatMap_append] at hrest

/-- A line is ended only where no line feed stands before. -/
theorem Added.getLast?_of_parts {old added : List UInt8} {w : LineWriter} (h : Added old added w)
    {calls : List Call} {l r : List Part} (hparts : parts w calls = l ++ .ending :: r) :
    (added ++ l.flatMap Part.bytes).getLast? ≠ some newline := by
  induction calls generalizing added w l with
  | nil => simp [parts] at hparts
  | cons c calls ih =>
    have hnext := h.after_call c
    rw [parts] at hparts
    cases hc : c.part? w with
    | none =>
      rw [hc] at hparts hnext
      simpa using ih hnext hparts
    | some p =>
      rw [hc] at hparts hnext
      cases l with
      | nil =>
        -- the call at hand ends the line
        obtain ⟨rfl, -⟩ : p = .ending ∧ _ := by simpa using hparts
        rw [h.part?_of_closes (Call.closes_of_part? hc)] at hc
        split at hc
        · next hends => simpa using hends.1
        · cases hc
      | cons q l =>
        obtain ⟨rfl, hrest⟩ : p = q ∧ _ := by simpa using hparts
        simpa using ih hnext hrest

/-- The sink refuses the line feed that is missing at its end. -/
def LineFeedRefused (w : LineWriter) : Prop :=
  w.endsLine = false ∧ w.sink.writeFault w.sink.writes ≠ none

theorem endsLine_leaves_of_closes {c : Call} (hc : c.Closes) {w : LineWriter}
    (h : ¬ w.LineFeedRefused) : (c.leaves w).endsLine = true := by
  rw [Call.leaves_of_closes hc, finalize]
  split
  · next hline => exact hline
  · next hline =>
    have hwrite : w.sink.writeFault w.sink.writes = none := by
      by_contra hrefused
      exact h ⟨by simpa using hline, hrefused⟩
    cases hf : w.sink.flushFault w.sink.flushes with
    | some f => rw [writeThrough_of_flushFault hwrite hf]; rfl
    | none => rw [writeThrough_of_none hwrite hf]; rfl

theorem endsLine_leaves {w : LineWriter} (h : w.endsLine = true) {c : Call}
    (hc : (c.part? w).toList.filterMap Part.chunk? = []) : (c.leaves w).endsLine = true := by
  have hclosing : c.Closes → (c.leaves w).endsLine = true := by
    intro hcloses
    rw [Call.leaves, Call.make_of_endsLine hcloses h]
    exact h
  cases c with
  | write data =>
    show (w.write data).2.endsLine = true
    cases hw : w.sink.writeFault w.sink.writes with
    | some f =>
      rw [write_of_writeFault hw]
      exact h
    | none =>
      obtain ⟨k, -, hwrite⟩ := write_of_none hw data
      have hdata : data = [] := by
        by_contra hne
        simp [Call.part?, Call.make, hwrite, failure?, hne, Part.chunk?] at hc
      rw [hwrite, hdata]
      exact h
  | flush => exact h
  | finalize => exact hclosing trivial
  | exit failed => exact hclosing trivial

theorem endsLine_foldl {w : LineWriter} (h : w.endsLine = true) {calls : List Call}
    (hcalls : chunks w calls = []) : (calls.foldl Call.leaves w).endsLine = true := by
  induction calls generalizing w with
  | nil => exact h
  | cons c calls ih =>
    rw [chunks, parts, List.filterMap_append, List.append_eq_nil_iff] at hcalls
    exact ih (endsLine_leaves h hcalls.1) hcalls.2

/-- **A writer knows how its sink ends.** Take a new writer on any sink, and any finite sequence of calls
on it, of which the sink makes fail what it likes. The sink then holds, after the bytes that it held
before, the chunks that were written, in order and each as it was, and line feeds from the closing calls
around them: never two next to each other, and none right after a line feed. The writer knows whether
these bytes end in a line feed. And if one of the calls was a closing call whose line feed was not
refused, and no chunk was added since, then a further closing call raises nothing, tells nothing and
leaves everything as it is, the counted calls on the sink included. -/
theorem writer_tracks_sink (k : Sink) (calls : List Call) :
    let w := calls.foldl Call.leaves (.onto k)
    let added := (parts (.onto k) calls).flatMap Part.bytes
    w.sink.bytes = k.bytes ++ added ∧ (w.endsLine = true ↔ added.getLast? = some newline) ∧
      (∀ l r : List Part, parts (.onto k) calls = l ++ .ending :: r →
        (l.flatMap Part.bytes).getLast? ≠ some newline) ∧
      (∀ l r : List Part, parts (.onto k) calls ≠ l ++ .ending :: .ending :: r) ∧
      ∀ (before between : List Call) (c : Call), calls = before ++ c :: between → c.Closes →
        ¬ (before.foldl Call.leaves (.onto k)).LineFeedRefused →
        chunks (c.leaves (before.foldl Call.leaves (.onto k))) between = [] →
        ∀ d : Call, d.Closes → d.make w = (none, w, []) := by
  intro w added
  have hadded : Added k.bytes added w := by
    simpa using (Added.onto k).after_calls calls
  have hends : ∀ l r : List Part, parts (.onto k) calls = l ++ .ending :: r →
      (l.flatMap Part.bytes).getLast? ≠ some newline := by
    intro l r hparts
    simpa using (Added.onto k).getLast?_of_parts hparts
  refine ⟨hadded.bytes, hadded.endsLine, hends, fun l r hparts => ?_, ?_⟩
  · -- the first of two endings is a line feed before the second
    have hlast := hends (l ++ [.ending]) r (by simpa using hparts)
    simp [Part.bytes] at hlast
  · intro before between c hcalls hc hrefused hbetween d hd
    have hline : w.endsLine = true := by
      show (calls.foldl Call.leaves (.onto k)).endsLine = true
      rw [hcalls, List.foldl_append, List.foldl_cons]
      exact endsLine_foldl (endsLine_leaves_of_closes hc hrefused) hbetween
    exact Call.make_of_endsLine hd hline

/-- A sink whose third write and first flush fail. -/
def unsteady : Sink :=
  ⟨[7], [], 0, 0, fun n => if n = 2 then some .closed else none,
    fun n => if n = 0 then some .closed else none⟩

/-- A chunk is written, and the line feed of an exit is accepted and then not flushed. A flush, a chunk
that is refused and one that is empty follow. The line stays ended, and ending it again does nothing. -/
theorem writer_tracks_sink_unflushed :
    let calls : List Call := [.write [65], .exit true, .flush, .write [66], .write []]
    let w := calls.foldl Call.leaves (.onto unsteady)
    parts (.onto unsteady) calls = [.chunk [65], .ending] ∧ w.sink.bytes = [7, 65, 10] ∧
      w.sink.writes = 4 ∧ w.sink.flushes = 2 ∧ w.endsLine = true ∧
      Call.finalize.make w = (none, w, []) ∧ (Call.exit false).make w = (none, w, []) := by
  intro calls w
  obtain ⟨-, hline, -, -, hidle⟩ := writer_tracks_sink unsteady calls
  have hclosed : ∀ d : Call, d.Closes → d.make w = (none, w, []) :=
    hidle [.write [65]] [.flush, .write [66], .write []] (.exit true) rfl trivial
      (fun hrefused => hrefused.2 rfl) rfl
  exact ⟨rfl, rfl, rfl, rfl, hline.2 rfl, hclosed .finalize trivial, hclosed (.exit false) trivial⟩

end TapeMachine.LineWriter
