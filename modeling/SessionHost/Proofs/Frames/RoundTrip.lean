import SessionHost.Proofs.Frames.Reader
import SessionHost.Proofs.Json.Documents

/-!
# Written frames are read back

The bytes of a message are one frame by the grammar, and the frame's answer is the message.  So the
messages of a stream are read as they were written, however the stream is cut.

Main results:

- Theorem `reads_frameBytes`: the bytes of a message are its frame, whatever follows them.
- Theorem `written_read_back`: messages are read back in their order, and then the stream ends.
-/

namespace SessionHost.Rpc

open Json (Value)

/-! ## Lines of texts -/

/-- A text has the byte of a newline only where it has a newline. -/
theorem newline_notMem {s : String} (h : '\n' ∉ s.toList) : newline ∉ Text.utf8Bytes s := by
  rw [Text.utf8Bytes_eq_flatMap]
  intro hmem
  obtain ⟨c, hc, hbyte⟩ := List.mem_flatMap.1 hmem
  have hvalue : c.val.toNat = 10 := by
    have hofNat (m : Nat) : 10 = UInt8.ofNat m ↔ m % 256 = 10 := by
      rw [← UInt8.toNat_inj, UInt8.toNat_ofNat', eq_comm]
      rfl
    unfold String.utf8EncodeChar newline at hbyte
    extract_lets v at hbyte
    split at hbyte
    · simp only [List.mem_singleton, hofNat] at hbyte
      omega
    -- The bytes of longer characters are no ASCII.
    repeat' split at hbyte
    all_goals
      simp only [List.mem_cons, hofNat, List.not_mem_nil, or_false] at hbyte
      omega
  have hnewline : c = '\n' := Char.ext (UInt32.toNat_inj.1 hvalue)
  exact h (hnewline ▸ hc)

/-- A text in front of a newline is a line. -/
theorem line_of_text {s : String} (h : '\n' ∉ s.toList) (rest : List UInt8) :
    Line (Text.utf8Bytes (s ++ "\n") ++ rest) (Text.utf8Bytes (s ++ "\n")) rest := by
  have hend : Text.utf8Bytes "\n" = [newline] := by
    rw [Text.utf8Bytes_eq_flatMap]
    rfl
  rw [Text.utf8Bytes_append, hend, List.append_assoc]
  exact .ended (newline_notMem h)

/-! ## Frames of messages -/

/-- The line that tells a length. -/
def lengthLine (n : Nat) : String := "Content-Length: " ++ Text.decimal n ++ "\r"

/-- Where a number stands in a text. -/
theorem toList_append_decimal (before after : String) (n : Nat) :
    (before ++ Text.decimal n ++ after).toList =
      before.toList ++ Nat.toDigits 10 n ++ after.toList := by
  rw [Text.decimal, String.toList_append, String.toList_append, String.toList_ofList]

/-- The line of the length, character by character. -/
theorem toList_lengthLine (n : Nat) : (lengthLine n).toList =
    "Content-Length: ".toList ++ Nat.toDigits 10 n ++ "\r".toList :=
  toList_append_decimal _ _ n

theorem newline_notMem_lengthLine (n : Nat) : '\n' ∉ (lengthLine n).toList := by
  have hdigits : '\n' ∉ Nat.toDigits 10 n := fun h =>
    absurd (Nat.isDigit_of_mem_toDigits (by decide) (by decide) h) (by decide)
  rw [toList_lengthLine, List.mem_append, List.mem_append, or_assoc, not_or, not_or]
  exact ⟨by decide, hdigits, by decide⟩

/-- The line of the length gives it. -/
theorem says_lengthLine {n : Nat} (h : n ≤ Text.maxUInt64) :
    HeaderLine.Says (Text.utf8Bytes (lengthLine n ++ "\n")) (.length n) := by
  have hname : NamesLength "Content-Length".toList :=
    ⟨"Content-Length".toList,
      ⟨[], [], rfl, List.all_eq_true.1 rfl, List.all_eq_true.1 rfl⟩, by decide⟩
  have hvalue : SpellsLength (' ' :: (Nat.toDigits 10 n ++ "\r\n".toList)) n :=
    ⟨Nat.toDigits 10 n, ⟨[' '], "\r\n".toList, rfl, List.all_eq_true.1 rfl,
      List.all_eq_true.1 rfl⟩,
      Text.spellsUnsigned_toDigits h⟩
  refine .length rfl ?_ (by decide) hname hvalue
  rw [String.toList_append, toList_lengthLine, List.append_assoc, List.append_assoc]
  rfl

/-- An empty line ends the header. -/
theorem says_emptyLine : HeaderLine.Says (Text.utf8Bytes ("\r" ++ "\n")) .blank :=
  .blank rfl (List.all_eq_true.1 rfl)

/-- A text that ends with two line ends may be cut between them. -/
theorem utf8Bytes_lineEnds (line mark feed : String) (body : List UInt8) :
    Text.utf8Bytes (line ++ (mark ++ feed ++ (mark ++ feed))) ++ body =
      Text.utf8Bytes (line ++ mark ++ feed) ++ (Text.utf8Bytes (mark ++ feed) ++ body) := by
  simp only [Text.utf8Bytes_append, List.append_assoc]

/-- A frame is its length, an empty line, and the text of the message. -/
theorem frameBytes_eq (message : Value) :
    frameBytes message =
      Text.utf8Bytes (lengthLine (Text.utf8Bytes message.text).length ++ "\n") ++
        (Text.utf8Bytes ("\r" ++ "\n") ++ Text.utf8Bytes message.text) := by
  have hend : "\r\n\r\n" = "\r" ++ "\n" ++ ("\r" ++ "\n") := by decide
  rw [frameBytes, hend]
  exact utf8Bytes_lineEnds _ "\r" "\n" _

/-- The bytes of a message are its frame, whatever follows them. -/
theorem reads_frameBytes {message : Value} (hfit : message.Fits Json.maxDepth)
    (hsize : (Text.utf8Bytes message.text).length ≤ maxBody) (rest : List UInt8) :
    Reads (frameBytes message ++ rest) (some (.ok message)) rest := by
  have hlength := says_lengthLine (hsize.trans (by decide))
  have hresult : bodyResult (Text.utf8Bytes message.text) = .ok message := by
    rw [bodyResult, hfit.ofBytes?]
  rw [frameBytes_eq, ← hresult, List.append_assoc, List.append_assoc]
  exact .body (.length (line_of_text (newline_notMem_lengthLine _) _) hlength
    (.done (line_of_text (by decide) _) says_emptyLine)) hsize

/-- So the messages of a stream are its results. -/
theorem readFrames_flatMap_frameBytes {messages : List Value}
    (hfit : ∀ v ∈ messages, v.Fits Json.maxDepth)
    (hsize : ∀ v ∈ messages, (Text.utf8Bytes v.text).length ≤ maxBody) :
    readFrames (messages.flatMap frameBytes) = messages.map .ok := by
  induction messages with
  | nil => rfl
  | cons v rest ih =>
    have hread := reads_frameBytes (hfit v List.mem_cons_self) (hsize v List.mem_cons_self)
      (rest.flatMap frameBytes)
    rw [List.flatMap_cons, readFrames, run_of_some hread.first_eq,
      ih (fun w hw => hfit w (List.mem_cons_of_mem _ hw)) fun w hw =>
        hsize w (List.mem_cons_of_mem _ hw), List.map_cons]

/-- Messages that were written one after the other are read back in their order, however the
written bytes are cut, and behind them stands the end of the stream: numbers of 64 bits, strings of
any characters, and arrays and objects that nest no deeper than a kept value may. -/
theorem written_read_back {messages : List Value} {chunks : List (List UInt8)}
    (hfit : ∀ v ∈ messages, v.Fits Json.maxDepth)
    (hsize : ∀ v ∈ messages, (Text.utf8Bytes v.text).length ≤ maxBody)
    (hwritten : chunks.flatten = messages.flatMap frameBytes) (n : Nat) :
    answersOf (messages.length + n) chunks =
      messages.map (fun v => some (.ok v)) ++ List.replicate n none := by
  have hread := answersOf_eq chunks n
  rw [hwritten, readFrames_flatMap_frameBytes hfit hsize, List.length_map, List.map_map] at hread
  exact hread

/-- Messages with numbers at their bounds, escapes, characters of several bytes, and nesting. -/
def sampleMessages : List Value :=
  [.object [("\"\\\n\x01", .array [.int (-9223372036854775808), .int 18446744073709551615]),
    ("π😀", .object [("", .bool true)])], .null, .string "Content-Length: 2\r\n\r\n{}"]

theorem sampleMessages_fit : ∀ v ∈ sampleMessages, v.Fits Json.maxDepth := by
  have hnumbers : (Value.array [.int (-9223372036854775808), .int 18446744073709551615]).Fits 126 :=
    .array fun v hv => by
      obtain rfl | rfl : v = .int (-9223372036854775808) ∨ v = .int 18446744073709551615 := by
        simpa using hv
      · exact .int (by decide) (by decide)
      · exact .int (by decide) (by decide)
  have hinner : (Value.object [("", .bool true)]).Fits 126 :=
    .object (List.pairwise_singleton _ _) fun m hm => List.mem_singleton.1 hm ▸ .bool
  intro v hv
  obtain rfl | rfl | rfl : v = .object [("\"\\\n\x01", .array [.int (-9223372036854775808),
      .int 18446744073709551615]), ("π😀", .object [("", .bool true)])] ∨ v = .null ∨
      v = .string "Content-Length: 2\r\n\r\n{}" := by
    simpa [sampleMessages] using hv
  · refine .object (List.pairwise_pair.2 (by decide)) fun m hm => ?_
    obtain rfl | hm := List.mem_cons.1 hm
    · exact hnumbers
    · exact List.mem_singleton.1 hm ▸ hinner
  · exact .null
  · exact .string

/-- They are read back when their bytes come one at a time. -/
theorem sampleMessages_read_back :
    answersOf 5 ((sampleMessages.flatMap frameBytes).map fun b => [b]) =
      sampleMessages.map (fun v => some (.ok v)) ++ [none, none] :=
  written_read_back sampleMessages_fit (by decide +kernel)
    (by rw [← List.flatMap_def, List.flatMap_singleton']) 2

end SessionHost.Rpc
