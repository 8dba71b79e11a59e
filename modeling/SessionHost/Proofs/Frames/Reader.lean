import SessionHost.Proofs.Frames.Grammar
import SessionHost.Proofs.Signals.Stream

/-!
# Readers follow the grammar

A stream comes in chunks, and a reader is called again and again, errors or not.  Each call takes
one frame by the rules of the grammar, however the stream is cut, and leaves the bytes behind it to
the next call.

Main definitions:

- `FrameReader.call`, `answersOf`: a call of a reader on a stream in chunks, and the answers of
  several calls.
- `FrameReader.first`: what a reader makes of all the bytes that it has ahead.

Main results:

- Theorem `reads_iff`: the first answer is the one that the grammar gives, and so is what is left.
- Theorem `FrameReader.call_flatten`: chunks do not matter.
- Theorem `follows_grammar`: a reader follows the grammar up to the end of the stream.
-/

namespace SessionHost.Rpc

/-! ## Calls -/

namespace FrameReader

/-- A call of a reader: its answer, and what is left of the chunks that were to come.  At the end of
the stream there is no answer. -/
def call (r : FrameReader) : List (List UInt8) → Option FrameResult × List (List UInt8)
  | [] => (r.finish, [])
  | chunk :: rest =>
    match takeFrame r chunk with
    | (_, left, some result) => (some result, left :: rest)
    | (next, _, none) => next.call rest

/-- What a reader makes of all the bytes that it has ahead. -/
def first (r : FrameReader) : List UInt8 → Option FrameResult × List UInt8
  | [] => (r.finish, [])
  | b :: rest =>
    match r.step b with
    | (_, some result) => (some result, rest)
    | (next, none) => next.first rest

/-- What a reader makes of the bytes ahead of it after a piece of its work. -/
def goOn : FrameReader × Option FrameResult → List UInt8 → Option FrameResult × List UInt8
  | (_, some result), rest => (some result, rest)
  | (next, none), rest => next.first rest

end FrameReader

/-- The answers of some calls between frames, one after the other. -/
def answersOf : Nat → List (List UInt8) → List (Option FrameResult)
  | 0, _ => []
  | n + 1, chunks =>
    (FrameReader.idle.call chunks).1 :: answersOf n (FrameReader.idle.call chunks).2

namespace FrameReader

variable {r : FrameReader} {started : Bool} {length? : Option Nat}
  {seen text body rest bytes : List UInt8}

@[simp]
theorem first_nil (r : FrameReader) : r.first [] = (r.finish, []) := rfl

theorem first_cons (r : FrameReader) (b : UInt8) (rest : List UInt8) :
    r.first (b :: rest) = goOn (r.step b) rest := by
  unfold first goOn
  split <;> simp_all

/-- A frame that stands in some bytes is taken off them, whatever follows. -/
theorem first_of_some {next : FrameReader} {left : List UInt8} {result : FrameResult}
    (h : takeFrame r bytes = (next, left, some result)) (more : List UInt8) :
    r.first (bytes ++ more) = (some result, left ++ more) := by
  induction bytes generalizing r with
  | nil => cases h
  | cons b rest ih =>
    rw [List.cons_append, first_cons]
    unfold takeFrame at h
    split at h
    · rename_i hstep
      cases h
      rw [hstep, goOn]
    · rename_i hstep
      rw [hstep]
      exact ih h

/-- Bytes without a whole frame are kept for what follows. -/
theorem first_of_none {next : FrameReader} {left : List UInt8}
    (h : takeFrame r bytes = (next, left, none)) (more : List UInt8) :
    r.first (bytes ++ more) = next.first more := by
  induction bytes generalizing r with
  | nil =>
    cases h
    rfl
  | cons b rest ih =>
    rw [List.cons_append, first_cons]
    unfold takeFrame at h
    split at h
    · cases h
    · rename_i hstep
      rw [hstep]
      exact ih h

/-- Chunks do not matter. -/
theorem call_flatten (r : FrameReader) (chunks : List (List UInt8)) :
    r.first chunks.flatten = ((r.call chunks).1, (r.call chunks).2.flatten) := by
  induction chunks generalizing r with
  | nil => rfl
  | cons chunk rest ih =>
    rw [List.flatten_cons, call]
    split
    · rename_i htake
      exact first_of_some htake _
    · rename_i htake
      rw [first_of_none htake]
      exact ih _

/-! ## Lines and bodies -/

/-- Bytes without a newline are kept. -/
theorem first_text (h : newline ∉ text) (rest : List UInt8) :
    (header started length? seen).first (text ++ rest) =
      (header started length? (text.reverse ++ seen)).first rest := by
  induction text generalizing seen with
  | nil => rfl
  | cons b more ih =>
    have hb : b ≠ newline := fun heq => h (heq ▸ List.mem_cons_self)
    rw [List.cons_append, first_cons, step, if_neg hb, goOn,
      ih fun hmem => h (List.mem_cons_of_mem _ hmem), List.reverse_cons, List.append_assoc]
    rfl

/-- Behind a line that does not end a header stands the next one. -/
theorem line_eq_header {line kept : List UInt8} {length?' : Option Nat}
    (h : FrameReader.line length? line = (header started length?' kept, none)) :
    started = true ∧ kept = [] := by
  unfold FrameReader.line beginBody at h
  split at h
  · split at h
    · cases h
    · split at h
      · cases h
      · split at h <;> cases h
  · cases h
    exact ⟨rfl, rfl⟩
  · cases h
    exact ⟨rfl, rfl⟩
  · cases h

/-- The end of the stream is the end of an unfinished line, too. -/
theorem finish_header (h : text ≠ []) :
    ((header started length? text.reverse).finish, []) =
      goOn (FrameReader.line length? text) [] := by
  obtain ⟨b, more, hrev⟩ := List.exists_cons_of_ne_nil (mt List.reverse_eq_nil_iff.1 h)
  have htext : text = (b :: more).reverse := by rw [← hrev, List.reverse_reverse]
  rw [hrev, htext, finish]
  split
  · rename_i hline
    rw [hline, goOn]
  · rename_i hline
    rw [hline, goOn, first_nil, finish]
  · rename_i hline
    obtain ⟨rfl, rfl⟩ := line_eq_header hline
    rw [hline]
    rfl

/-- A line is read when it is whole, or when the stream ends behind it. -/
theorem first_line {line : List UInt8} (h : Line bytes line rest) :
    (header started length? []).first bytes = goOn (FrameReader.line length? line) rest := by
  cases h with
  | @ended text rest h =>
    rw [first_text h, first_cons, step, if_pos rfl, List.append_nil, List.reverse_reverse]
  | last h hfull =>
    have hkept : (header started length? []).first (bytes ++ []) =
        (header started length? (bytes.reverse ++ [])).first [] := first_text h []
    rw [List.append_nil, List.append_nil] at hkept
    rw [hkept, first_nil, finish_header hfull]

/-- A body is taken when it is whole. -/
theorem first_body (h : body ≠ []) (rest : List UInt8) :
    (FrameReader.body body.length seen).first (body ++ rest) =
      (some (bodyResult (seen.reverse ++ body)), rest) := by
  induction body generalizing seen with
  | nil => exact absurd rfl h
  | cons b more ih =>
    rw [List.cons_append, first_cons, step]
    cases more with
    | nil => rfl
    | cons c tail =>
      rw [if_neg (by simp), goOn, List.length_cons, Nat.add_sub_cancel, ih (by simp),
        List.reverse_cons, List.append_assoc]
      rfl

/-- A body whose end has not come is none at the end of the stream. -/
theorem first_short {n : Nat} (h : bytes.length < n) :
    (FrameReader.body n seen).first bytes = (some (.error .bodyEnds), []) := by
  induction bytes generalizing n seen with
  | nil => rfl
  | cons b rest ih =>
    rw [List.length_cons] at h
    rw [first_cons, step, if_neg (by omega), goOn]
    exact ih (by omega)

end FrameReader

/-! ## The grammar -/

open FrameReader

variable {started : Bool} {length? : Option Nat} {bytes rest : List UInt8}
  {e : Except FrameFault Nat} {answer : Option FrameResult}

/-- What a reader does at the end of a header. -/
def headerEnd : Except FrameFault Nat → FrameReader × Option FrameResult
  | .error f => (.idle, some (.error f))
  | .ok n => beginBody (some n)

/-- A reader follows the rules for headers. -/
theorem Header.first_eq (h : Header length? bytes e rest) :
    (header true length? []).first bytes = goOn (headerEnd e) rest := by
  induction h with
  | ends => rfl
  | fault hline h =>
    rw [first_line hline, FrameReader.line, HeaderLine.says_iff.1 h]
    rfl
  | other hline h hrest ih =>
    rw [first_line hline, FrameReader.line, HeaderLine.says_iff.1 h]
    exact ih
  | length hline h hrest ih =>
    rw [first_line hline, FrameReader.line, HeaderLine.says_iff.1 h]
    exact ih
  | missing hline h =>
    rw [first_line hline, FrameReader.line, HeaderLine.says_iff.1 h]
    rfl
  | done hline h =>
    rw [first_line hline, FrameReader.line, HeaderLine.says_iff.1 h]
    rfl

/-- Where there are bytes, a reader between two frames is in a header. -/
theorem first_idle (hfull : bytes ≠ []) :
    FrameReader.idle.first bytes = (header true none []).first bytes := by
  obtain ⟨line, rest, hline⟩ := exists_line hfull
  rw [FrameReader.idle, first_line hline, first_line hline]

/-- A reader follows the rules for frames. -/
theorem Reads.first_eq (h : Reads bytes answer rest) :
    FrameReader.idle.first bytes = (answer, rest) := by
  cases h with
  | ends => rfl
  | fault hfull h =>
    rw [first_idle hfull, h.first_eq]
    rfl
  | tooLarge h hn =>
    rw [first_idle h.ne_nil, h.first_eq, headerEnd, beginBody, if_pos hn]
    rfl
  | short h hn hrest =>
    rw [first_idle h.ne_nil, h.first_eq, headerEnd, beginBody, if_neg (Nat.not_lt.2 hn),
      if_neg (by omega)]
    exact first_short hrest
  | @body _ body _ h hn =>
    rw [first_idle h.ne_nil, h.first_eq, headerEnd, beginBody, if_neg (Nat.not_lt.2 hn)]
    by_cases hempty : body = []
    · subst hempty
      rfl
    · rw [if_neg (mt List.length_eq_zero_iff.1 hempty)]
      exact first_body hempty rest

/-- The first answer is the one that the grammar gives, and so is what is left. -/
theorem reads_iff : Reads bytes answer rest ↔ FrameReader.idle.first bytes = (answer, rest) := by
  constructor
  · exact Reads.first_eq
  · intro h
    obtain ⟨answer', rest', hreads⟩ := exists_reads bytes
    cases hreads.first_eq.symm.trans h
    exact hreads

/-! ## All answers -/

/-- At the end of a stream there are no more results. -/
theorem run_of_none {r : FrameReader} (h : r.first bytes = (none, rest)) : r.run bytes = [] := by
  induction bytes generalizing r with
  | nil =>
    rw [first_nil] at h
    rw [run, (Prod.mk.inj h).1]
    rfl
  | cons b more ih =>
    rw [first_cons] at h
    unfold run
    split
    · rename_i hstep
      rw [hstep] at h
      cases h
    · rename_i hstep
      rw [hstep] at h
      exact ih h

/-- The results of a stream are its first one and those of what is left. -/
theorem run_of_some {r : FrameReader} {result : FrameResult}
    (h : r.first bytes = (some result, rest)) : r.run bytes = result :: readFrames rest := by
  induction bytes generalizing r with
  | nil =>
    obtain ⟨hfinish, rfl⟩ := Prod.mk.inj h
    rw [run, hfinish]
    rfl
  | cons b more ih =>
    rw [first_cons] at h
    unfold run
    split
    · rename_i hstep
      rw [hstep] at h
      cases h
      rw [step_idle hstep]
      rfl
    · rename_i hstep
      rw [hstep] at h
      exact ih h

/-- The end of a stream lasts. -/
theorem answersOf_ended {chunks : List (List UInt8)} (h : chunks.flatten = []) (n : Nat) :
    answersOf n chunks = List.replicate n none := by
  induction n generalizing chunks with
  | zero => rfl
  | succ n ih =>
    have hcall := call_flatten idle chunks
    rw [h, first_nil] at hcall
    obtain ⟨hanswer, hleft⟩ := Prod.mk.inj hcall
    rw [answersOf, ih hleft.symm, ← hanswer, List.replicate_succ]
    rfl

/-- Calls one after the other give the results of the stream, and then its end. -/
theorem answersOf_eq (chunks : List (List UInt8)) (n : Nat) :
    answersOf ((readFrames chunks.flatten).length + n) chunks =
      (readFrames chunks.flatten).map some ++ List.replicate n none := by
  induction hk : chunks.flatten.length using Nat.strong_induction_on generalizing chunks with
  | _ k ih =>
    have hfirst := call_flatten idle chunks
    cases hcall : (idle.call chunks).1 with
    | none =>
      rw [hcall] at hfirst
      obtain ⟨hempty, -⟩ := (reads_iff.2 hfirst).ended
      have hnone : readFrames [] = [] := rfl
      rw [hempty, hnone, List.length_nil, Nat.zero_add, answersOf_ended hempty]
      rfl
    | some result =>
      rw [hcall] at hfirst
      have hlt := (reads_iff.2 hfirst).length_lt
      have hrun : readFrames chunks.flatten = result :: readFrames (idle.call chunks).2.flatten :=
        run_of_some hfirst
      rw [hrun, List.length_cons, Nat.add_right_comm, answersOf, hcall, ih _ (hk ▸ hlt) _ rfl,
        List.map_cons, List.cons_append]

/-- A stream has at most as many results as bytes. -/
theorem length_readFrames_le (bytes : List UInt8) : (readFrames bytes).length ≤ bytes.length := by
  induction hk : bytes.length using Nat.strong_induction_on generalizing bytes with
  | _ k ih =>
    cases hfirst : FrameReader.idle.first bytes with
    | mk answer rest =>
      cases answer with
      | none =>
        rw [readFrames, run_of_none hfirst]
        exact Nat.zero_le _
      | some result =>
        have hlt := (reads_iff.2 hfirst).length_lt
        have hrest := ih _ (hk ▸ hlt) rest rfl
        rw [readFrames, run_of_some hfirst, List.length_cons]
        omega

/-- The answers of several calls are those that the grammar gives. -/
theorem answers_iff {n : Nat} {chunks : List (List UInt8)} {answers : List (Option FrameResult)} :
    Answers n chunks.flatten answers ↔ answersOf n chunks = answers := by
  constructor
  · intro h
    induction n generalizing chunks answers with
    | zero =>
      cases h
      rfl
    | succ n ih =>
      cases h with
      | cons hreads hrest =>
        obtain ⟨hanswer, hleft⟩ :=
          Prod.mk.inj ((call_flatten idle chunks).symm.trans hreads.first_eq)
        rw [answersOf, hanswer, ih (hleft ▸ hrest)]
  · rintro rfl
    induction n generalizing chunks with
    | zero => exact .nil
    | succ n ih => exact .cons (reads_iff.2 (call_flatten idle chunks)) ih

/-- Readers follow the grammar, however a stream is cut: every call gives the answer that the
grammar gives and leaves the bytes that it leaves, so the calls together give the answers that it
gives.  A call that does not come to the end of the stream takes at least one byte, so a stream has
at most as many results as bytes, and behind them its end. -/
theorem follows_grammar (chunks : List (List UInt8)) :
    (∀ answer rest, Reads chunks.flatten answer rest ↔
      (idle.call chunks).1 = answer ∧ (idle.call chunks).2.flatten = rest) ∧
    (∀ n answers, Answers n chunks.flatten answers ↔ answersOf n chunks = answers) ∧
    ((idle.call chunks).1 ≠ none →
      (idle.call chunks).2.flatten.length < chunks.flatten.length) ∧
    (readFrames chunks.flatten).length ≤ chunks.flatten.length ∧
    ∀ n, answersOf ((readFrames chunks.flatten).length + n) chunks =
      (readFrames chunks.flatten).map some ++ List.replicate n none := by
  have hfirst := call_flatten idle chunks
  refine ⟨fun answer rest => ?_, fun n answers => answers_iff, fun hne => ?_,
    length_readFrames_le _, answersOf_eq chunks⟩
  · rw [reads_iff, hfirst, Prod.mk.injEq]
  · obtain ⟨result, hresult⟩ := Option.ne_none_iff_exists'.1 hne
    rw [hresult] at hfirst
    exact (reads_iff.2 hfirst).length_lt

end SessionHost.Rpc
