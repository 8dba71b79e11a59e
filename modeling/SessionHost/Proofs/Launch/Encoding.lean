import SessionHost.Launch.Command
import SessionHost.Proofs.Text.Units

/-!
# Encoded commands

Elsewhere than on Windows a script travels as the base64 letters of its UTF-16 bytes.  The letters
are read back in groups of four, and only the last group may be padded.

Main definitions:

- `base64Alphabet`, `letterBits?`: the letters, and the six bits that one of them stands for.
- `base64Bytes?`: the bytes of padded letters.
- `decodeScript?`: the script of an encoded command.

Main results:

- Theorem `base64Bytes?_eq_some_iff`: letters are read as bytes exactly if they are the letters of
  these bytes.
- Theorem `command_scripts_agree`: the encoded command of a launch carries the script that the
  plain command carries.
-/

namespace SessionHost.Launch

/-! ## Letters -/

/-- The letters by the six bits that they stand for. -/
def base64Alphabet : List Char :=
  "ABCDEFGHIJKLMNOPQRSTUVWXYZabcdefghijklmnopqrstuvwxyz0123456789+/".toList

/-- The six bits that a letter stands for. -/
def letterBits? (c : Char) : Option Nat := base64Alphabet.idxOf? c

/-- A letter has the bits that it was chosen for. -/
theorem letterBits?_letter {n : Nat} (h : n < 64) : letterBits? (base64Letter n) = some n := by
  have hall : ∀ n < 64, letterBits? (base64Letter n) = some n := by decide +kernel
  exact hall n h

theorem base64Alphabet_getElem? {n : Nat} (h : n < 64) :
    base64Alphabet[n]? = some (base64Letter n) := by
  have hall : ∀ n < 64, base64Alphabet[n]? = some (base64Letter n) := by decide +kernel
  exact hall n h

/-- A character stands for six bits exactly if it is their letter. -/
theorem letterBits?_eq_some_iff {c : Char} {n : Nat} :
    letterBits? c = some n ↔ n < 64 ∧ c = base64Letter n := by
  constructor
  · intro h
    obtain ⟨hlt, hc, -⟩ := List.idxOf?_eq_some_iff.1 h
    have hn : n < 64 := hlt
    have hget : base64Alphabet[n]? = some c := by
      rw [List.getElem?_eq_getElem hlt]
      exact congrArg some (by simpa using hc)
    exact ⟨hn, Option.some.inj (hget.symm.trans (base64Alphabet_getElem? hn))⟩
  · rintro ⟨hn, rfl⟩
    exact letterBits?_letter hn

/-- The padding is no letter. -/
theorem base64Letter_ne_padding {n : Nat} (h : n < 64) : base64Letter n ≠ '=' := by
  have hall : ∀ n < 64, base64Letter n ≠ '=' := by decide +kernel
  exact hall n h

/-! ## Groups -/

/-- The byte of two letters, which have nothing left over. -/
def oneByte? (a b : Char) : Option (List UInt8) := do
  let x ← letterBits? a
  let y ← letterBits? b
  if y % 16 = 0 then some [UInt8.ofNat (x * 4 + y / 16)] else none

/-- The bytes of three letters, which have nothing left over. -/
def twoBytes? (a b c : Char) : Option (List UInt8) := do
  let x ← letterBits? a
  let y ← letterBits? b
  let z ← letterBits? c
  let n := x * 4096 + y * 64 + z
  if n % 4 = 0 then some [UInt8.ofNat (n / 1024), UInt8.ofNat (n / 4 % 256)] else none

/-- The bytes of four letters. -/
def threeBytes? (a b c d : Char) : Option (List UInt8) := do
  let x ← letterBits? a
  let y ← letterBits? b
  let z ← letterBits? c
  let w ← letterBits? d
  let n := x * 262144 + y * 4096 + z * 64 + w
  some [UInt8.ofNat (n / 65536), UInt8.ofNat (n / 256 % 256), UInt8.ofNat (n % 256)]

/-- The bytes of letters.  Padding stands only at their end and fills the last group up. -/
def base64Bytes? : List Char → Option (List UInt8)
  | [] => some []
  | a :: b :: c :: d :: rest =>
    if d = '=' then
      if rest ≠ [] then none
      else if c = '=' then oneByte? a b
      else twoBytes? a b c
    else do
      let group ← threeBytes? a b c d
      let bytes ← base64Bytes? rest
      some (group ++ bytes)
  | _ => none

/-- Eighteen bits are three letters. -/
theorem sixes_three (n : Nat) : n / 4096 * 4096 + n / 64 % 64 * 64 + n % 64 = n := by
  omega

/-- Twenty-four bits are four letters. -/
theorem sixes_four (n : Nat) :
    n / 262144 * 262144 + n / 4096 % 64 * 4096 + n / 64 % 64 * 64 + n % 64 = n := by
  omega

/-- Two bytes, with two bits left over. -/
theorem bytes_two {n : Nat} (h : n % 4 = 0) : n / 1024 * 1024 + n / 4 % 256 * 4 = n := by
  omega

/-- Three bytes. -/
theorem bytes_three (n : Nat) : n / 65536 * 65536 + n / 256 % 256 * 256 + n % 256 = n := by
  omega

/-- A last group of two letters is decoded exactly if it encodes one byte. -/
theorem oneByte?_eq_some_iff {a b : Char} {bytes : List UInt8} :
    oneByte? a b = some bytes ↔
      ∃ x : UInt8, bytes = [x] ∧ base64 bytes = [a, b, '=', '='] := by
  constructor
  · intro h
    obtain ⟨x, hxbits, hx⟩ := Option.bind_eq_some_iff.1 h
    obtain ⟨y, hybits, hbytes⟩ := Option.bind_eq_some_iff.1 hx
    clear h hx
    obtain ⟨hx, rfl⟩ := letterBits?_eq_some_iff.1 hxbits
    obtain ⟨hy, rfl⟩ := letterBits?_eq_some_iff.1 hybits
    split at hbytes
    · next hrest =>
      cases hbytes
      refine ⟨_, rfl, ?_⟩
      have hbyte : (UInt8.ofNat (x * 4 + y / 16)).toNat = x * 4 + y / 16 := by
        rw [UInt8.toNat_ofNat']
        omega
      have hfirst : (x * 4 + y / 16) / 4 = x := by omega
      have hsecond : (x * 4 + y / 16) % 4 * 16 = y := by omega
      rw [base64, hbyte, hfirst, hsecond]
    · cases hbytes
  · rintro ⟨x, rfl, h⟩
    have hx := x.toNat_lt
    simp only [base64, List.cons.injEq, and_true] at h
    obtain ⟨rfl, rfl⟩ := h
    have hbyte : x.toNat / 4 * 4 + x.toNat % 4 * 16 / 16 = x.toNat := by omega
    rw [oneByte?, letterBits?_letter (by omega), letterBits?_letter (by omega)]
    simp only [Option.bind_eq_bind, Option.bind_some]
    rw [if_pos (by omega), hbyte, UInt8.ofNat_toNat]

/-- A last group of three letters is decoded exactly if it encodes two bytes. -/
theorem twoBytes?_eq_some_iff {a b c : Char} {bytes : List UInt8} :
    twoBytes? a b c = some bytes ↔
      c ≠ '=' ∧ ∃ x y : UInt8, bytes = [x, y] ∧ base64 bytes = [a, b, c, '='] := by
  constructor
  · intro h
    obtain ⟨x, hxbits, hx⟩ := Option.bind_eq_some_iff.1 h
    obtain ⟨y, hybits, hy⟩ := Option.bind_eq_some_iff.1 hx
    obtain ⟨z, hzbits, hbytes⟩ := Option.bind_eq_some_iff.1 hy
    clear h hx hy
    obtain ⟨hx, rfl⟩ := letterBits?_eq_some_iff.1 hxbits
    obtain ⟨hy, rfl⟩ := letterBits?_eq_some_iff.1 hybits
    obtain ⟨hz, rfl⟩ := letterBits?_eq_some_iff.1 hzbits
    refine ⟨base64Letter_ne_padding hz, ?_⟩
    simp only at hbytes
    generalize hn : x * 4096 + y * 64 + z = n at hbytes
    split at hbytes
    · next hrest =>
      cases hbytes
      refine ⟨_, _, rfl, ?_⟩
      have hhigh : (UInt8.ofNat (n / 1024)).toNat = n / 1024 := by
        rw [UInt8.toNat_ofNat']
        omega
      have hlow : (UInt8.ofNat (n / 4 % 256)).toNat = n / 4 % 256 := by
        rw [UInt8.toNat_ofNat']
        omega
      have hfirst : n / 4096 = x := by omega
      have hsecond : n / 64 % 64 = y := by omega
      have hthird : n % 64 = z := by omega
      simp only [base64, hhigh, hlow, bytes_two hrest, hfirst, hsecond, hthird]
    · cases hbytes
  · rintro ⟨-, x, y, rfl, h⟩
    have hx := x.toNat_lt
    have hy := y.toNat_lt
    simp only [base64, List.cons.injEq, and_true] at h
    obtain ⟨rfl, rfl, rfl⟩ := h
    generalize hn : x.toNat * 1024 + y.toNat * 4 = n
    have hhigh : n / 1024 = x.toNat := by omega
    have hlow : n / 4 % 256 = y.toNat := by omega
    rw [twoBytes?, letterBits?_letter (by omega), letterBits?_letter (by omega),
      letterBits?_letter (by omega)]
    simp only [Option.bind_eq_bind, Option.bind_some, sixes_three, hhigh, hlow]
    rw [if_pos (by omega), UInt8.ofNat_toNat, UInt8.ofNat_toNat]

/-- A full group is decoded exactly if it encodes three bytes. -/
theorem threeBytes?_eq_some_iff {a b c d : Char} {bytes : List UInt8} :
    threeBytes? a b c d = some bytes ↔
      d ≠ '=' ∧ ∃ x y z : UInt8, bytes = [x, y, z] ∧ base64 bytes = [a, b, c, d] := by
  constructor
  · intro h
    obtain ⟨x, hxbits, hx⟩ := Option.bind_eq_some_iff.1 h
    obtain ⟨y, hybits, hy⟩ := Option.bind_eq_some_iff.1 hx
    obtain ⟨z, hzbits, hz⟩ := Option.bind_eq_some_iff.1 hy
    obtain ⟨w, hwbits, hbytes⟩ := Option.bind_eq_some_iff.1 hz
    clear h hx hy hz
    obtain ⟨hx, rfl⟩ := letterBits?_eq_some_iff.1 hxbits
    obtain ⟨hy, rfl⟩ := letterBits?_eq_some_iff.1 hybits
    obtain ⟨hz, rfl⟩ := letterBits?_eq_some_iff.1 hzbits
    obtain ⟨hw, rfl⟩ := letterBits?_eq_some_iff.1 hwbits
    refine ⟨base64Letter_ne_padding hw, ?_⟩
    simp only at hbytes
    generalize hn : x * 262144 + y * 4096 + z * 64 + w = n at hbytes
    cases hbytes
    refine ⟨_, _, _, rfl, ?_⟩
    have hhigh : (UInt8.ofNat (n / 65536)).toNat = n / 65536 := by
      rw [UInt8.toNat_ofNat']
      omega
    have hmiddle : (UInt8.ofNat (n / 256 % 256)).toNat = n / 256 % 256 := by
      rw [UInt8.toNat_ofNat']
      omega
    have hlow : (UInt8.ofNat (n % 256)).toNat = n % 256 := by
      rw [UInt8.toNat_ofNat']
      omega
    have hfirst : n / 262144 = x := by omega
    have hsecond : n / 4096 % 64 = y := by omega
    have hthird : n / 64 % 64 = z := by omega
    have hfourth : n % 64 = w := by omega
    simp only [base64, hhigh, hmiddle, hlow, bytes_three, hfirst, hsecond, hthird, hfourth]
  · rintro ⟨-, x, y, z, rfl, h⟩
    have hx := x.toNat_lt
    have hy := y.toNat_lt
    have hz := z.toNat_lt
    simp only [base64, List.cons.injEq, and_true] at h
    obtain ⟨rfl, rfl, rfl, rfl⟩ := h
    generalize hn : x.toNat * 65536 + y.toNat * 256 + z.toNat = n
    have hhigh : n / 65536 = x.toNat := by omega
    have hmiddle : n / 256 % 256 = y.toNat := by omega
    have hlow : n % 256 = z.toNat := by omega
    rw [threeBytes?, letterBits?_letter (by omega), letterBits?_letter (by omega),
      letterBits?_letter (by omega), letterBits?_letter (by omega)]
    simp only [Option.bind_eq_bind, Option.bind_some, sixes_four, hhigh, hmiddle, hlow]
    rw [UInt8.ofNat_toNat, UInt8.ofNat_toNat, UInt8.ofNat_toNat]

/-- Three bytes become four letters in front of the letters of the other bytes. -/
theorem base64_append (x y z : UInt8) (bytes : List UInt8) :
    base64 (x :: y :: z :: bytes) = base64 [x, y, z] ++ base64 bytes := by
  simp [base64]

/-- **Letters are read as bytes exactly if they are the letters of these bytes.** -/
theorem base64Bytes?_eq_some_iff {cs : List Char} {bytes : List UInt8} :
    base64Bytes? cs = some bytes ↔ cs = base64 bytes := by
  constructor
  · intro h
    fun_induction base64Bytes? cs generalizing bytes with
    | case1 =>
      cases h
      rfl
    | case2 => cases h
    | case3 a b rest hrest =>
      obtain ⟨x, rfl, hletters⟩ := oneByte?_eq_some_iff.1 h
      rw [hletters, Decidable.not_not.1 hrest]
    | case4 a b c rest hrest hc =>
      obtain ⟨-, x, y, rfl, hletters⟩ := twoBytes?_eq_some_iff.1 h
      rw [hletters, Decidable.not_not.1 hrest]
    | case5 a b c d rest hd ih =>
      obtain ⟨group, hgroup, h⟩ := Option.bind_eq_some_iff.1 h
      obtain ⟨others, hothers, h⟩ := Option.bind_eq_some_iff.1 h
      obtain ⟨-, x, y, z, rfl, hletters⟩ := threeBytes?_eq_some_iff.1 hgroup
      cases h
      rw [List.cons_append, List.cons_append, List.cons_append, List.nil_append, base64_append,
        hletters, ← ih hothers]
      rfl
    | case6 => cases h
  · rintro rfl
    fun_induction base64 bytes with
    | case1 x y z rest n ih =>
      have hgroup : threeBytes? (base64Letter (n / 262144)) (base64Letter (n / 4096 % 64))
          (base64Letter (n / 64 % 64)) (base64Letter (n % 64)) = some [x, y, z] :=
        threeBytes?_eq_some_iff.2
          ⟨base64Letter_ne_padding (Nat.mod_lt _ (by decide)), x, y, z, rfl, rfl⟩
      rw [base64Bytes?, if_neg (base64Letter_ne_padding (Nat.mod_lt _ (by decide))), hgroup, ih]
      rfl
    | case2 x y n =>
      have hne : base64Letter (n % 64) ≠ '=' := base64Letter_ne_padding (Nat.mod_lt _ (by decide))
      rw [base64Bytes?, if_pos rfl, if_neg (fun h => h rfl), if_neg hne]
      exact twoBytes?_eq_some_iff.2 ⟨hne, x, y, rfl, rfl⟩
    | case3 x =>
      rw [base64Bytes?, if_pos rfl, if_neg (fun h => h rfl), if_pos rfl]
      exact oneByte?_eq_some_iff.2 ⟨x, rfl, rfl⟩
    | case4 => rfl

/-! ## Scripts -/

/-- The script of an encoded command: padded base64 of UTF-16, the lower byte of a unit first. -/
def decodeScript? (letters : String) : Option String :=
  (base64Bytes? letters.toList).bind Text.ofUtf16?

/-- Letters are decoded to a script exactly if they are its encoding. -/
theorem decodeScript?_eq_some_iff {letters script : String} :
    decodeScript? letters = some script ↔ letters = encodeScript script := by
  constructor
  · intro h
    obtain ⟨bytes, hbytes, hscript⟩ := Option.bind_eq_some_iff.1 h
    rw [encodeScript, ← Text.ofUtf16?_eq_some_iff.1 hscript,
      ← base64Bytes?_eq_some_iff.1 hbytes, String.ofList_toList]
  · rintro rfl
    have hbytes : base64Bytes? (encodeScript script).toList = some (Text.utf16Bytes script) :=
      base64Bytes?_eq_some_iff.2 (by rw [encodeScript, String.toList_ofList])
    rw [decodeScript?, hbytes, Option.bind_some, Text.ofUtf16?_eq_some_iff]

/-- A character of two units, between two of one unit; the last group is padded. -/
example : decodeScript? "YQA92ADeYgA=" = some "a😀b" := by decide +kernel

/-- **The encoded command carries the script of the plain one.**  The last argument of a launch
elsewhere than on Windows is decoded to the last argument of the same launch on Windows. -/
theorem command_scripts_agree (s : LaunchSpec) (exe : Executable) {here there : Platform}
    (hhere : here.os.isWindows = false) (hthere : there.os.isWindows = true) :
    ∃ letters script, (s.command exe here).args.getLast? = some letters ∧
      (s.command exe there).args.getLast? = some script ∧ decodeScript? letters = some script := by
  refine ⟨encodeScript s.script, s.script, ?_, ?_, decodeScript?_eq_some_iff.2 rfl⟩
  · simp [LaunchSpec.command, LaunchSpec.scriptArguments, hhere]
  · simp [LaunchSpec.command, LaunchSpec.scriptArguments, hthere]

/-- A launch whose host has a character of two units in its name. -/
def smilingSpec : LaunchSpec where
  modulesPath := ⟨"/modules"⟩
  editorArguments := "-HostName '😀' "
  logFolder := ⟨"/logs"⟩
  sessionFile := ⟨"/session.json"⟩
  featureFlags := ["é"]
  setExecutionPolicy := true
  loginShell := true
  legacyReadLine := false
  showOnStartup := true
  startInBackground := false
  cwd := none
  temporary := false

theorem command_scripts_agree_smiling :
    OperatingSystem.linux.isWindows = false ∧ OperatingSystem.windows.isWindows = true ∧
    ∃ letters script,
      (smilingSpec.command ⟨⟨"/pwsh"⟩, "PowerShell", true⟩
        ⟨.linux, true, true⟩).args.getLast? = some letters ∧
      (smilingSpec.command ⟨⟨"/pwsh"⟩, "PowerShell", true⟩
        ⟨.windows, true, true⟩).args.getLast? = some script ∧
      decodeScript? letters = some script :=
  ⟨rfl, rfl, command_scripts_agree smilingSpec _ rfl rfl⟩

end SessionHost.Launch
