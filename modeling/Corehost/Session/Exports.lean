import Corehost.Input.LineCompletion
import Corehost.Lib.RawBuffer
import Corehost.Session.Gbk
import Mathlib.Algebra.BigOperators.Group.List.Basic
import Mathlib.Algebra.BigOperators.Ring.List
import Mathlib.Algebra.Order.BigOperators.Group.List

/-!
# Exports and their lengths

The alias list, the alias executables and the command history, as the API
functions write them into a reply and as their length queries count them
(`api_handlers.hpp`, `char_convert.hpp`). `Converters` are the conversions of
Windows and of the Unicode library.

* `exportLoop_all`, `exportLoop_le`: what fits is written as a whole, and
  nothing outside the reply is;
* `agrees_iff`: when a reply of the reported size holds everything;
* `exports_agree_iff`: the three exports.
-/

namespace Corehost

open Lib Lib.KeyedList

/-! ## The conversions -/

/-- `WideCharToMultiByte`, `unicode::convert_to<char>` of a text in UTF-16, and the tables of
`COREHOST_ANSI_OPT` where it is on. -/
structure Converters where
  wideCharToMultiByte : UInt32 → List UInt16 → List UInt8
  convertToUtf8 : List UInt16 → List UInt8
  gbk : Option GbkTables

variable (c : Converters) (cp : UInt32)

/-- The tables, in the code page that they are for. -/
def Converters.gbkFor : Option GbkTables := if cp = 936 then c.gbk else none

def wideToAnsiMaxBytes (wlen : Nat) : Nat := if cp = CP_UTF8 then wlen * 3 else wlen * 2

def wstrToAnsiLen (ws : WideString) : Nat :=
  if ws = [] then 0
  else if cp = CP_UTF8 then wideToAnsiMaxBytes cp ws.length
  else match c.gbkFor cp with
    | some t => wstrToGbkLen t ws
    | none => (c.wideCharToMultiByte cp ws).length

/-- `convert_wstr_to_ansi`. Windows converts nothing where the room is too small. -/
def convertWstrToAnsi (ws : WideString) : Option (List UInt8) :=
  if ws = [] then some []
  else if cp = CP_UTF8 then if (c.convertToUtf8 ws).length ≤ ws.length * 3 then some (c.convertToUtf8 ws) else none
  else match c.gbkFor cp with
    | some t => convertWstrToGbk t ws
    | none =>
      some (if (c.wideCharToMultiByte cp ws).length ≤ wideToAnsiMaxBytes cp ws.length then c.wideCharToMultiByte cp ws else [])

def aliasWstringToAnsiLength (text : WideString) : Nat :=
  if text = [] then 0 else (c.wideCharToMultiByte cp text).length

/-- What `alias_wstring_to_ansi` writes. -/
def aliasWstringToAnsi (text : WideString) : List UInt8 := if text = [] then [] else c.wideCharToMultiByte cp text

/-! ## The lengths -/

/-- `static_cast<ULONG>`. -/
def ulong (n : Nat) : Nat := n % 2 ^ 32

/-- The table that a query for an executable is about. -/
def AliasState.tableFor (s : AliasState) (exe : WideString) : AliasMap := (find aliasKey s.aliasesByExe exe).getD s.aliases

/-- `api_l3_get_aliases_length`. -/
def aliasesLength (unicode : Bool) (aliases : AliasMap) : Nat :=
  aliases.foldl (fun sum kv => ulong (sum + ulong (
    if unicode then (kv.1.length + 1 + kv.2.length + 1) * 2
    else aliasWstringToAnsiLength c cp kv.1 + 1 + aliasWstringToAnsiLength c cp kv.2 + 1))) 0

/-- `api_l3_get_alias_exes_length`. -/
def aliasExesLength (unicode : Bool) (exes : List WideString) : Nat :=
  exes.foldl (fun sum exe => ulong (sum +
    ulong ((if unicode then exe.length else wstrToAnsiLen c cp exe) + 1) * if unicode then 2 else 1)) 0

def commandHistoryBufferLength (unicode : Bool) (commands : List (List Char32)) : Nat :=
  commands.foldl (fun sum command =>
    if unicode then sum + u32ToWideExactLen command + 1
    else sum + u32ToAnsiExactLen c.wideCharToMultiByte cp command + 1) 0 * if unicode then 2 else 1

/-! ## The exports -/

/-- The room for an export in the body of a message. -/
def exportRoom : Nat := MSG_BODY - (MSG_HEADER + 8)

/-- A loop over entries, up to the first that does not fit; `sum` is the addition in front of the check. -/
def exportLoop {ε α : Type} (sum : Nat → Nat → Nat) (need : ε → Nat) (write : ε → Option (List α)) (room : Nat) :
    List ε → RawBuffer α → Option (RawBuffer α)
  | [], out => some out
  | e :: es, out =>
    if sum out.data.length (need e) > room then some out
    else (write e).bind fun chunk => (out.putAll chunk).bind (exportLoop sum need write room es ·)

/-- `api_l3_get_aliases`. -/
def getAliases (unicode : Bool) (aliases : AliasMap) (outputSize : Nat) : Option (List UInt8) :=
  let room := messageOutputTailCapacity outputSize 8
  if unicode then
    (exportLoop (fun a b => ulong (a + b)) (fun kv : WideString × WideString => ulong (kv.1.length + 1 + kv.2.length + 1))
      (fun kv => some (kv.1 ++ [0x3D] ++ kv.2 ++ [0])) (room / 2) aliases ⟨exportRoom / 2, []⟩).map
      fun out : RawBuffer UInt16 => bytesOfWide out.data
  else
    (exportLoop (fun a b => ulong (a + b))
      (fun kv : WideString × WideString => ulong (aliasWstringToAnsiLength c cp kv.1 + 1 + aliasWstringToAnsiLength c cp kv.2 + 1))
      (fun kv => some (aliasWstringToAnsi c cp kv.1 ++ [0x3D] ++ aliasWstringToAnsi c cp kv.2 ++ [0])) room aliases
      ⟨exportRoom, []⟩).map (·.data)

/-- `api_l3_get_alias_exes`. -/
def getAliasExes (unicode : Bool) (exes : List WideString) (outputSize : Nat) : Option (List UInt8) :=
  let room := messageOutputTailCapacity outputSize 8
  if unicode then
    (exportLoop (· + ·) (fun exe : WideString => exe.length + 1) (fun exe => some (exe ++ [0])) (room / 2) exes
      ⟨exportRoom / 2, []⟩).map fun out : RawBuffer UInt16 => bytesOfWide out.data
  else
    (exportLoop (· + ·) (fun exe : WideString => ((convertWstrToAnsi c cp exe).getD []).length + 1)
      (fun exe => (convertWstrToAnsi c cp exe).map (· ++ [0])) room exes ⟨exportRoom, []⟩).map (·.data)

/-- `write_command_history_buffer`. -/
def writeCommandHistoryBuffer (unicode : Bool) (commands : List (List Char32)) (outCap : Nat) : Option (List UInt8) :=
  if unicode then
    (exportLoop (· + ·) (fun command => (u32ToWideExactLen command + 1) * 2)
      (fun command => (convertU32ToWideRaw command (u32ToWideExactLen command)).map fun text => bytesOfWide (text ++ [0]))
      outCap commands ⟨exportRoom, []⟩).map (·.data)
  else
    (exportLoop (· + ·) (fun command => u32ToAnsiExactLen c.wideCharToMultiByte cp command + 1)
      (fun command => (convertU32ToAnsiRaw c.wideCharToMultiByte cp command
        (u32ToAnsiExactLen c.wideCharToMultiByte cp command)).map (· ++ [0]))
      outCap commands ⟨exportRoom, []⟩).map (·.data)

/-- `api_l3_get_history`: nothing is sent where the buffer is too small. -/
def getHistory (unicode : Bool) (commands : List (List Char32)) (outputSize : Nat) : Option (List UInt8) :=
  (writeCommandHistoryBuffer c cp unicode commands (messageOutputTailCapacity outputSize 8)).map fun written =>
    if written.length < commandHistoryBufferLength c cp unicode commands then [] else written

/-! ## A loop that writes everything -/

section Loop

variable {ε α : Type} {sum : Nat → Nat → Nat} {need : ε → Nat} {write : ε → Option (List α)} {room : Nat}

/-- Entries that fit are all written. -/
theorem exportLoop_all {chunk : ε → List α} (hsum : ∀ a b, a + b ≤ room → sum a b = a + b) {es : List ε} {out : RawBuffer α}
    (hwrite : ∀ e ∈ es, write e = some (chunk e)) (hneed : ∀ e ∈ es, (chunk e).length ≤ room → need e = (chunk e).length)
    (hroom : room ≤ out.capacity) (hfits : out.data.length + (es.flatMap chunk).length ≤ room) :
    exportLoop sum need write room es out = some { out with data := out.data ++ es.flatMap chunk } := by
  induction es generalizing out with
  | nil => rw [exportLoop, List.flatMap_nil, List.append_nil]
  | cons e es ih =>
    obtain ⟨hw, hwrite⟩ := List.forall_mem_cons.mp hwrite
    obtain ⟨hn, hneed⟩ := List.forall_mem_cons.mp hneed
    rw [List.flatMap_cons, List.length_append] at hfits
    have hchunk := hsum out.data.length (chunk e).length (by omega)
    have hrest := @ih { out with data := out.data ++ chunk e } hwrite hneed hroom (by rw [List.length_append]; omega)
    rw [exportLoop, hn (by omega), hchunk, if_neg (by omega), hw, Option.bind_some, RawBuffer.putAll_of_fits (by omega),
      Option.bind_some, hrest, List.flatMap_cons, List.append_assoc]

/-- Nothing is written outside the memory. -/
theorem exportLoop_le {es : List ε} {out out' : RawBuffer α} (h : exportLoop sum need write room es out = some out')
    (hout : out.data.length ≤ out.capacity) : out'.data.length ≤ out.capacity := by
  induction es generalizing out with
  | nil =>
    obtain rfl := Option.some_inj.mp h
    exact hout
  | cons e es ih =>
    rw [exportLoop] at h
    split_ifs at h
    · obtain rfl := Option.some_inj.mp h
      exact hout
    · obtain ⟨chunk, -, h⟩ := Option.bind_eq_some_iff.mp h
      obtain ⟨next, hput, h⟩ := Option.bind_eq_some_iff.mp h
      obtain ⟨hcapacity, hle⟩ := RawBuffer.putAll_le hput hout
      have := ih h (hcapacity ▸ hle)
      rwa [hcapacity] at this

/-- No more is written than all entries. -/
theorem exportLoop_length {chunk : ε → List α} {es : List ε} {out out' : RawBuffer α}
    (h : exportLoop sum need write room es out = some out') (hwrite : ∀ e ∈ es, write e = some (chunk e)) :
    out'.data.length ≤ out.data.length + (es.flatMap chunk).length := by
  induction es generalizing out with
  | nil =>
    obtain rfl := Option.some_inj.mp h
    exact Nat.le_add_right ..
  | cons e es ih =>
    obtain ⟨hw, hwrite⟩ := List.forall_mem_cons.mp hwrite
    rw [exportLoop] at h
    split_ifs at h
    · obtain rfl := Option.some_inj.mp h
      exact Nat.le_add_right ..
    · rw [hw, Option.bind_some] at h
      obtain ⟨next, hput, h⟩ := Option.bind_eq_some_iff.mp h
      have := ih h hwrite
      rw [RawBuffer.putAll_data hput, List.length_append] at this
      rw [List.flatMap_cons, List.length_append]
      omega

end Loop

/-- A reply to a buffer of the reported size holds everything. -/
def ExportAgrees (length : Nat) (reply : Nat → Option (List UInt8)) (all : List UInt8) : Prop :=
  reply (8 + length) = some all ∧ all.length = length

theorem agrees_iff {length : Nat} {reply : Nat → Option (List UInt8)} {all : List UInt8}
    (hle : ∀ outputSize bytes, reply outputSize = some bytes → bytes.length ≤ exportRoom)
    (hall : ∀ outputSize, all.length ≤ messageOutputTailCapacity outputSize 8 → reply outputSize = some all) :
    ExportAgrees length reply all ↔ all.length ≤ exportRoom ∧ all.length = length := by
  constructor
  · rintro ⟨hreply, hlength⟩
    exact ⟨hle _ _ hreply, hlength⟩
  · rintro ⟨hroom, rfl⟩
    refine ⟨hall _ ?_, rfl⟩
    unfold messageOutputTailCapacity
    split_ifs
    · exact hroom
    · exact Nat.le_min.mpr ⟨by omega, hroom⟩
    · omega

theorem messageOutputTailCapacity_le (outputSize : Nat) : messageOutputTailCapacity outputSize 8 ≤ exportRoom := by
  unfold messageOutputTailCapacity exportRoom
  split_ifs
  · exact Nat.le_refl _
  · exact Nat.min_le_right ..
  · exact Nat.zero_le _

section Agree

variable {ε : Type} {sum : Nat → Nat → Nat} {need : ε → Nat} {es : List ε} {length : Nat}
  (hsum : ∀ a b, a + b ≤ exportRoom → sum a b = a + b)

include hsum

theorem agrees_bytes {write : ε → Option (List UInt8)} {chunk : ε → List UInt8} (hwrite : ∀ e ∈ es, write e = some (chunk e))
    (hneed : ∀ e ∈ es, (chunk e).length ≤ exportRoom → need e = (chunk e).length) :
    ExportAgrees length (fun outputSize =>
        (exportLoop sum need write (messageOutputTailCapacity outputSize 8) es ⟨exportRoom, []⟩).map (·.data))
        (es.flatMap chunk) ↔
      (es.flatMap chunk).length ≤ exportRoom ∧ (es.flatMap chunk).length = length := by
  refine agrees_iff (fun outputSize bytes h => ?_) fun outputSize h => ?_
  · obtain ⟨out, hout, rfl⟩ := Option.map_eq_some_iff.mp h
    exact exportLoop_le hout (Nat.zero_le _)
  · have hroom := messageOutputTailCapacity_le outputSize
    rw [exportLoop_all (fun a b hab => hsum a b (Nat.le_trans hab hroom)) hwrite
      (fun e he hle => hneed e he (Nat.le_trans hle hroom)) hroom (by simpa using h)]
    rfl

theorem agrees_wide {chunk : ε → List UInt16}
    (hneed : ∀ e ∈ es, (chunk e).length ≤ exportRoom → need e = (chunk e).length) :
    ExportAgrees length (fun outputSize =>
        (exportLoop sum need (fun e => some (chunk e)) (messageOutputTailCapacity outputSize 8 / 2) es ⟨exportRoom / 2, []⟩).map
          fun out : RawBuffer UInt16 => bytesOfWide out.data)
        (es.flatMap fun e => bytesOfWide (chunk e)) ↔
      (es.flatMap fun e => bytesOfWide (chunk e)).length ≤ exportRoom ∧
        (es.flatMap fun e => bytesOfWide (chunk e)).length = length := by
  have hall : (es.flatMap fun e => bytesOfWide (chunk e)) = bytesOfWide (es.flatMap chunk) := List.flatMap_assoc.symm
  rw [hall]
  refine agrees_iff (fun outputSize bytes h => ?_) fun outputSize h => ?_
  · obtain ⟨out, hout, rfl⟩ := Option.map_eq_some_iff.mp h
    have := exportLoop_le hout (Nat.zero_le _)
    rw [length_bytesOfWide]
    dsimp only at this
    omega
  · have hroom := messageOutputTailCapacity_le outputSize
    rw [length_bytesOfWide] at h
    have hfits : (es.flatMap chunk).length ≤ messageOutputTailCapacity outputSize 8 / 2 := by omega
    rw [exportLoop_all (fun a b hab => hsum a b (by omega)) (fun e _ => rfl) (fun e he hle => hneed e he (by omega))
      (Nat.div_le_div_right hroom) (by simpa using hfits)]
    rfl

end Agree

theorem ulong_of_le {n : Nat} (h : n ≤ exportRoom) : ulong n = n := Nat.mod_eq_of_lt (Nat.lt_of_le_of_lt h (by decide))

/-- A sum in `ULONG`. -/
theorem foldl_ulong {ε : Type} {step : Nat → ε → Nat} {f : ε → Nat} (h : ∀ sum e, step sum e = ulong (sum + f e)) (es : List ε) :
    es.foldl step 0 = ulong (es.map f).sum := by
  have key : ∀ (es : List ε) (start : Nat), ulong start = start → es.foldl step start = ulong (start + (es.map f).sum) := by
    intro es
    induction es with
    | nil => exact fun start hstart => hstart.symm
    | cons e es ih =>
      intro start hstart
      rw [List.foldl_cons, ih _ (by rw [h, ulong, ulong, Nat.mod_mod]), h, List.map_cons, List.sum_cons]
      rw [ulong, ulong, ulong, Nat.mod_add_mod, Nat.add_assoc]
  simpa using key es 0 rfl

/-! ## What an export holds -/

/-- An alias in an export. -/
def aliasEntry (unicode : Bool) (kv : WideString × WideString) : List UInt8 :=
  if unicode then bytesOfWide (kv.1 ++ [0x3D] ++ kv.2 ++ [0])
  else aliasWstringToAnsi c cp kv.1 ++ [0x3D] ++ aliasWstringToAnsi c cp kv.2 ++ [0]

/-- A name in the code page. -/
def ansiName (exe : WideString) : List UInt8 :=
  if exe = [] then []
  else if cp = CP_UTF8 then c.convertToUtf8 exe
  else match c.gbkFor cp with
    | some t => ((gbkCodes t exe).map codeBytes).flatten
    | none => c.wideCharToMultiByte cp exe

/-- An executable in an export. -/
def exeEntry (unicode : Bool) (exe : WideString) : List UInt8 :=
  if unicode then bytesOfWide (exe ++ [0]) else ansiName c cp exe ++ [0]

/-- A command in an export. -/
def commandEntry (unicode : Bool) (command : List Char) : List UInt8 :=
  if unicode then bytesOfWide (Utf16.encode command ++ [0])
  else (if command = [] then [] else if cp = CP_UTF8 then Utf8.encode command
    else c.wideCharToMultiByte cp (Utf16.encode command)) ++ [0]

variable {c cp}

theorem length_aliasWstringToAnsi (text : WideString) :
    (aliasWstringToAnsi c cp text).length = aliasWstringToAnsiLength c cp text := by
  unfold aliasWstringToAnsi aliasWstringToAnsiLength
  split_ifs <;> rfl

theorem ulong_add (a b : Nat) : ulong (a + ulong b) = ulong (a + b) := Nat.add_mod_mod ..

theorem ulong_mul (a b n : Nat) : ulong (a + ulong b * n) = ulong (a + b * n) := by
  rw [ulong, ulong, ulong, Nat.add_mod, Nat.mod_mul_mod, ← Nat.add_mod]

/-- A length that is counted like the entries are long. -/
theorem fits_iff {n length : Nat} (h : length = ulong n) : n ≤ exportRoom ∧ n = length ↔ n ≤ exportRoom :=
  ⟨And.left, fun hle => ⟨hle, by rw [h, ulong_of_le hle]⟩⟩

theorem ulong_sum {a b : Nat} (h : a + b ≤ exportRoom) : ulong (a + b) = a + b := ulong_of_le h

theorem aliases_agree_iff (unicode : Bool) (aliases : AliasMap) :
    ExportAgrees (aliasesLength c cp unicode aliases) (getAliases c cp unicode aliases) (aliases.flatMap (aliasEntry c cp unicode)) ↔
      (aliases.flatMap (aliasEntry c cp unicode)).length ≤ exportRoom := by
  have hlength : aliasesLength c cp unicode aliases = ulong (aliases.flatMap (aliasEntry c cp unicode)).length := by
    rw [List.length_flatMap]
    refine @foldl_ulong _ _ (fun kv => (aliasEntry c cp unicode kv).length) (fun sum kv => ?_) aliases
    rw [ulong_add]
    refine congrArg (fun n => ulong (sum + n)) ?_
    unfold aliasEntry
    cases unicode
    · simp [← length_aliasWstringToAnsi]
      omega
    · simp [length_bytesOfWide]
      omega
  refine Iff.trans ?_ (fits_iff hlength)
  cases unicode
  · refine agrees_bytes (fun a b => ulong_sum) (fun kv _ => rfl) fun kv _ hle => ?_
    have hentry : (aliasEntry c cp false kv).length =
        aliasWstringToAnsiLength c cp kv.1 + 1 + aliasWstringToAnsiLength c cp kv.2 + 1 := by
      simp [aliasEntry, length_aliasWstringToAnsi]
      omega
    rw [hentry] at hle
    exact (ulong_of_le hle).trans hentry.symm
  · refine @agrees_wide _ _ (fun kv : WideString × WideString => ulong (kv.1.length + 1 + kv.2.length + 1)) aliases _
      (fun a b => ulong_sum) (fun kv => kv.1 ++ [0x3D] ++ kv.2 ++ [0]) fun kv _ hle => ?_
    have hentry : (kv.1 ++ [0x3D] ++ kv.2 ++ [0]).length = kv.1.length + 1 + kv.2.length + 1 := by
      simp
      omega
    rw [hentry] at hle
    exact (ulong_of_le hle).trans hentry.symm

/-- What `convert_wstr_to_ansi` makes of a name. -/
def exportedName (c : Converters) (cp : UInt32) (exe : WideString) : List UInt8 :=
  if cp ≠ CP_UTF8 ∧ c.gbkFor cp = none ∧ exe.length * 2 < (c.wideCharToMultiByte cp exe).length then [] else ansiName c cp exe

theorem convertWstrToAnsi_eq (hutf8 : ∀ ws, (c.convertToUtf8 ws).length ≤ ws.length * 3) (exe : WideString) :
    convertWstrToAnsi c cp exe = some (exportedName c cp exe) := by
  unfold convertWstrToAnsi exportedName ansiName wideToAnsiMaxBytes
  by_cases hnil : exe = []
  · simp [hnil]
  by_cases hcp : cp = CP_UTF8
  · simp [hnil, hcp, hutf8]
  simp only [if_neg hnil, if_neg hcp]
  cases hgbk : c.gbkFor cp with
  | some t =>
    simp [convertWstrToGbk, convertWstrToGbkLoop_eq, RawBuffer.putAll_new (length_gbkCodes_le t exe)]
  | none =>
    by_cases hfits : (c.wideCharToMultiByte cp exe).length ≤ exe.length * 2
    · simp [hcp, hfits]
    · simp [hcp, hfits, Nat.lt_of_not_le hfits]

theorem exes_agree_wide (exes : List WideString) :
    ExportAgrees (aliasExesLength c cp true exes) (getAliasExes c cp true exes) (exes.flatMap (exeEntry c cp true)) ↔
      (exes.flatMap (exeEntry c cp true)).length ≤ exportRoom := by
  have hlength : aliasExesLength c cp true exes = ulong (exes.flatMap (exeEntry c cp true)).length := by
    rw [List.length_flatMap]
    refine @foldl_ulong _ _ (fun exe => (exeEntry c cp true exe).length) (fun sum exe => ?_) exes
    rw [ulong_mul]
    refine congrArg (fun n => ulong (sum + n)) ?_
    simp [exeEntry, length_bytesOfWide]
    omega
  refine Iff.trans ?_ (fits_iff hlength)
  exact @agrees_wide _ _ (fun exe : WideString => exe.length + 1) exes _ (fun a b _ => rfl) (· ++ [0]) fun exe _ _ => by simp

/-- The bytes that are counted for a name and not written, in UTF-8. -/
def utf8Surplus (c : Converters) (exe : WideString) : Nat := exe.length * 3 - (c.convertToUtf8 exe).length

theorem length_exportedName_le (exe : WideString) : (exportedName c cp exe).length ≤ (ansiName c cp exe).length := by
  unfold exportedName
  split_ifs
  · exact Nat.zero_le _
  · exact Nat.le_refl _

/-- The length that is reported for a name. -/
theorem wstrToAnsiLen_eq (hutf8 : ∀ ws, (c.convertToUtf8 ws).length ≤ ws.length * 3) (exe : WideString) :
    wstrToAnsiLen c cp exe = (ansiName c cp exe).length + if cp = CP_UTF8 ∧ exe ≠ [] then utf8Surplus c exe else 0 := by
  unfold wstrToAnsiLen ansiName wideToAnsiMaxBytes utf8Surplus
  by_cases hnil : exe = []
  · simp [hnil]
  by_cases hcp : cp = CP_UTF8
  · have := hutf8 exe
    simp only [if_neg hnil, hcp, true_and, if_true]
    rw [if_pos hnil]
    omega
  simp only [if_neg hnil, hcp, false_and, if_false]
  cases hgbk : c.gbkFor cp with
  | some t => exact wstrToGbkLen_eq t exe
  | none => rfl

theorem aliasExesLength_ansi (hutf8 : ∀ ws, (c.convertToUtf8 ws).length ≤ ws.length * 3) (exes : List WideString) :
    aliasExesLength c cp false exes = ulong ((exes.flatMap (exeEntry c cp false)).length +
      if cp = CP_UTF8 then (exes.map (utf8Surplus c)).sum else 0) := by
  have hsum : ((exes.flatMap (exeEntry c cp false)).length + if cp = CP_UTF8 then (exes.map (utf8Surplus c)).sum else 0) =
      (exes.map fun exe => wstrToAnsiLen c cp exe + 1).sum := by
    have hone (exe : WideString) : wstrToAnsiLen c cp exe + 1 =
        (exeEntry c cp false exe).length + if cp = CP_UTF8 then utf8Surplus c exe else 0 := by
      have hempty : exe = [] → utf8Surplus c exe = 0 := by
        rintro rfl
        exact Nat.zero_sub _
      rw [wstrToAnsiLen_eq hutf8]
      simp only [exeEntry, Bool.false_eq_true, if_false, List.length_append, List.length_singleton]
      split_ifs <;> grind
    rw [List.length_flatMap, List.map_congr_left fun exe _ => hone exe]
    split_ifs
    · rw [List.sum_map_add]
    · rfl
  rw [hsum]
  refine @foldl_ulong _ _ (fun exe => wstrToAnsiLen c cp exe + 1) (fun sum exe => ?_) exes
  rw [ulong_mul]
  exact congrArg (fun n => ulong (sum + n)) (Nat.mul_one _)

/-- No more is written than the names as they are converted. -/
theorem getAliasExes_le (hutf8 : ∀ ws, (c.convertToUtf8 ws).length ≤ ws.length * 3) {exes : List WideString} {outputSize : Nat}
    {bytes : List UInt8} (h : getAliasExes c cp false exes outputSize = some bytes) :
    bytes.length ≤ (exes.flatMap fun exe => exportedName c cp exe ++ [0]).length := by
  obtain ⟨out, hout, rfl⟩ := Option.map_eq_some_iff.mp h
  have hle := exportLoop_length hout fun exe _ => congrArg (Option.map (· ++ [0])) (convertWstrToAnsi_eq hutf8 exe)
  rwa [List.length_nil, Nat.zero_add] at hle

theorem ansiName_windows {exe : WideString} (hne : exe ≠ []) (hcp : cp ≠ CP_UTF8) (hgbk : c.gbkFor cp = none) :
    ansiName c cp exe = c.wideCharToMultiByte cp exe := by
  rw [ansiName, if_neg hne, if_neg hcp, hgbk]

/-- A name that is too long for its room is not written. -/
theorem exportedName_eq_iff (exe : WideString) : exportedName c cp exe = ansiName c cp exe ↔
    (cp ≠ CP_UTF8 → c.gbkFor cp = none → (ansiName c cp exe).length ≤ exe.length * 2) := by
  by_cases hne : exe = []
  · have hname : ansiName c cp exe = [] := by rw [ansiName, if_pos hne]
    rw [exportedName, hname, ite_self]
    exact iff_of_true rfl fun _ _ => Nat.zero_le _
  unfold exportedName
  split_ifs with hlong
  · obtain ⟨hcp, hgbk, hlong⟩ := hlong
    rw [ansiName_windows hne hcp hgbk]
    refine iff_of_false (fun h => ?_) fun h => Nat.not_le_of_lt hlong (h hcp hgbk)
    rw [← h] at hlong
    exact Nat.not_lt_zero _ hlong
  · refine iff_of_true rfl fun hcp hgbk => ?_
    rw [ansiName_windows hne hcp hgbk]
    exact Nat.le_of_not_lt fun hlt => hlong ⟨hcp, hgbk, hlt⟩

theorem exes_agree_ansi (hutf8 : ∀ ws, (c.convertToUtf8 ws).length ≤ ws.length * 3) (exes : List WideString) :
    ExportAgrees (aliasExesLength c cp false exes) (getAliasExes c cp false exes) (exes.flatMap (exeEntry c cp false)) ↔
      (exes.flatMap (exeEntry c cp false)).length ≤ exportRoom ∧
        (cp = CP_UTF8 → 2 ^ 32 ∣ (exes.map (utf8Surplus c)).sum) ∧
        (cp ≠ CP_UTF8 → c.gbkFor cp = none → ∀ exe ∈ exes, (ansiName c cp exe).length ≤ exe.length * 2) := by
  by_cases hexact : ∀ exe ∈ exes, exportedName c cp exe = ansiName c cp exe
  · have hshort : cp ≠ CP_UTF8 → c.gbkFor cp = none → ∀ exe ∈ exes, (ansiName c cp exe).length ≤ exe.length * 2 :=
      fun hcp hgbk exe hexe => (exportedName_eq_iff exe).mp (hexact exe hexe) hcp hgbk
    have hagrees : ExportAgrees (aliasExesLength c cp false exes) (getAliasExes c cp false exes) (exes.flatMap (exeEntry c cp false)) ↔
        (exes.flatMap (exeEntry c cp false)).length ≤ exportRoom ∧
          (exes.flatMap (exeEntry c cp false)).length = aliasExesLength c cp false exes := by
      refine agrees_bytes (fun a b _ => rfl) (fun exe hexe => ?_) fun exe hexe _ => ?_
      · rw [convertWstrToAnsi_eq hutf8, hexact exe hexe]
        rfl
      · rw [convertWstrToAnsi_eq hutf8, hexact exe hexe]
        change (ansiName c cp exe).length + 1 = (ansiName c cp exe ++ [0]).length
        rw [List.length_append, List.length_singleton]
    rw [hagrees]
    refine and_congr_right fun hroom => ?_
    rw [aliasExesLength_ansi hutf8]
    have hsmall : (exes.flatMap (exeEntry c cp false)).length < 2 ^ 32 := Nat.lt_of_le_of_lt hroom (by decide)
    refine Iff.trans ?_ (and_iff_left hshort).symm
    generalize (exes.flatMap (exeEntry c cp false)).length = n at hsmall
    split_ifs with hcp
    · rw [ulong, Nat.dvd_iff_mod_eq_zero]
      refine Iff.trans ?_ (forall_prop_of_true hcp).symm
      omega
    · rw [Nat.add_zero, ulong, Nat.mod_eq_of_lt hsmall]
      exact ⟨fun _ h => absurd h hcp, fun _ => rfl⟩
  · push Not at hexact
    obtain ⟨exe, hexe, hne⟩ := hexact
    refine iff_of_false (fun h => ?_) fun h => hne ((exportedName_eq_iff exe).mpr fun hcp hgbk => h.2.2 hcp hgbk exe hexe)
    have hle := getAliasExes_le hutf8 h.1
    rw [List.length_flatMap, List.length_flatMap] at hle
    have hentry (e : WideString) : (exeEntry c cp false e).length = (ansiName c cp e).length + 1 := List.length_append
    simp only [hentry, List.length_append, List.length_singleton] at hle
    have hlt : (exportedName c cp exe).length < (ansiName c cp exe).length := by
      refine Nat.lt_of_le_of_ne (length_exportedName_le exe) fun h => hne ?_
      unfold exportedName at h ⊢
      split_ifs at h ⊢
      · exact (List.length_eq_zero_iff.mp h.symm).symm
      · rfl
    refine absurd hle (Nat.not_le_of_lt (List.sum_lt_sum _ _ (fun e _ => ?_) ⟨exe, hexe, Nat.succ_lt_succ hlt⟩))
    exact Nat.succ_le_succ (length_exportedName_le e)

/-! ## The command history -/

theorem length_commandEntry_wide (command : List Char) :
    (commandEntry c cp true command).length = (u32ToWideExactLen (command.map Char.toNat) + 1) * 2 := by
  rw [u32ToWideExactLen_toNat, commandEntry, if_pos rfl, length_bytesOfWide, List.length_append, List.length_singleton,
    Nat.mul_comm]
  rfl

theorem length_commandEntry_ansi (command : List Char) : (commandEntry c cp false command).length =
    u32ToAnsiExactLen c.wideCharToMultiByte cp (command.map Char.toNat) + 1 := by
  rw [commandEntry, if_neg Bool.false_ne_true, List.length_append, List.length_singleton, u32ToAnsiExactLen]
  by_cases hnil : command = []
  · rw [if_pos hnil, hnil]
    rfl
  have hmap : ¬ command.map Char.toNat = [] := mt List.map_eq_nil_iff.mp hnil
  rw [if_neg hnil, if_neg hmap, scalars_toNat, u32ToUtf8ExactLen_toNat]
  split_ifs <;> rfl

theorem convertU32ToWideRaw_exact (command : List Char) :
    convertU32ToWideRaw (command.map Char.toNat) (u32ToWideExactLen (command.map Char.toNat)) =
      some (Utf16.encode command) := by
  rw [convertU32ToWideRaw, if_pos (Nat.le_refl _), scalars_toNat]

theorem convertU32ToAnsiRaw_exact (command : List Char) :
    (convertU32ToAnsiRaw c.wideCharToMultiByte cp (command.map Char.toNat)
      (u32ToAnsiExactLen c.wideCharToMultiByte cp (command.map Char.toNat))).map (· ++ [0]) =
        some (commandEntry c cp false command) := by
  rw [convertU32ToAnsiRaw, u32ToAnsiExactLen, commandEntry, if_neg Bool.false_ne_true]
  by_cases hnil : command = []
  · rw [if_pos hnil, hnil]
    rfl
  have hmap : ¬ command.map Char.toNat = [] := mt List.map_eq_nil_iff.mp hnil
  rw [if_neg hnil, if_neg hmap, if_neg hmap, scalars_toNat]
  by_cases hcp : cp = CP_UTF8
  · rw [if_pos hcp, if_pos hcp, if_pos hcp, if_pos (Nat.le_refl _)]
    rfl
  · rw [if_neg hcp, if_neg hcp, if_neg hcp]
    dsimp only
    rw [if_pos (Nat.le_refl _)]
    rfl

/-- `command_history_buffer_length` counts what the commands take. -/
theorem commandHistoryBufferLength_eq (unicode : Bool) (commands : List (List Char)) :
    commandHistoryBufferLength c cp unicode (commands.map (·.map Char.toNat)) =
      (commands.flatMap (commandEntry c cp unicode)).length := by
  have hfold (len : List Char → Nat) :
      commands.foldl (fun sum command => sum + len command + 1) 0 = (commands.map fun command => len command + 1).sum := by
    rw [List.sum_eq_foldl, List.foldl_map]
    rfl
  rw [commandHistoryBufferLength, List.foldl_map, List.length_flatMap]
  cases unicode
  · simp only [Bool.false_eq_true, if_false, Nat.mul_one, length_commandEntry_ansi, hfold]
  · simp only [if_true, length_commandEntry_wide, hfold, List.sum_map_mul_right]

theorem writeCommandHistoryBuffer_all {unicode : Bool} {commands : List (List Char)} {outCap : Nat} (hroom : outCap ≤ exportRoom)
    (hfits : (commands.flatMap (commandEntry c cp unicode)).length ≤ outCap) :
    writeCommandHistoryBuffer c cp unicode (commands.map (·.map Char.toNat)) outCap =
      some (commands.flatMap (commandEntry c cp unicode)) := by
  have hall : (commands.map (·.map Char.toNat)).flatMap (fun command => commandEntry c cp unicode (scalars command)) =
      commands.flatMap (commandEntry c cp unicode) := by
    rw [List.flatMap_map]
    exact List.flatMap_congr fun command _ => congrArg _ (scalars_toNat command)
  rw [← hall] at hfits ⊢
  cases unicode
  · rw [writeCommandHistoryBuffer, if_neg Bool.false_ne_true, exportLoop_all (fun _ _ _ => rfl) ?_ ?_ hroom (by simpa using hfits)]
    · rfl
    all_goals
      intro e he
      obtain ⟨command, -, rfl⟩ := List.mem_map.mp he
      rw [scalars_toNat]
    · exact convertU32ToAnsiRaw_exact command
    · exact fun _ => (length_commandEntry_ansi command).symm
  · rw [writeCommandHistoryBuffer, if_pos rfl, exportLoop_all (fun _ _ _ => rfl) ?_ ?_ hroom (by simpa using hfits)]
    · rfl
    all_goals
      intro e he
      obtain ⟨command, -, rfl⟩ := List.mem_map.mp he
      rw [scalars_toNat]
    · rw [convertU32ToWideRaw_exact]
      rfl
    · exact fun _ => (length_commandEntry_wide command).symm

theorem writeCommandHistoryBuffer_le {unicode : Bool} {commands : List (List Char32)} {outCap : Nat} {written : List UInt8}
    (h : writeCommandHistoryBuffer c cp unicode commands outCap = some written) : written.length ≤ exportRoom := by
  cases unicode
  all_goals
    obtain ⟨out, hout, rfl⟩ := Option.map_eq_some_iff.mp h
    exact exportLoop_le hout (Nat.zero_le _)

theorem history_agree_iff (unicode : Bool) (commands : List (List Char)) :
    ExportAgrees (ulong (commandHistoryBufferLength c cp unicode (commands.map (·.map Char.toNat))))
        (getHistory c cp unicode (commands.map (·.map Char.toNat))) (commands.flatMap (commandEntry c cp unicode)) ↔
      (commands.flatMap (commandEntry c cp unicode)).length ≤ exportRoom := by
  refine Iff.trans ?_ (fits_iff (congrArg ulong (commandHistoryBufferLength_eq unicode commands)))
  refine agrees_iff (fun outputSize bytes h => ?_) fun outputSize h => ?_
  · obtain ⟨written, hwritten, rfl⟩ := Option.map_eq_some_iff.mp h
    split_ifs
    · exact Nat.zero_le _
    · exact writeCommandHistoryBuffer_le hwritten
  · rw [getHistory, writeCommandHistoryBuffer_all (messageOutputTailCapacity_le outputSize) h, Option.map_some,
      commandHistoryBufferLength_eq, if_neg (Nat.lt_irrefl _)]

/-! ## The three exports -/

/-- The names that `aliases_by_exe` has, in its order. -/
def AliasState.exes (s : AliasState) : List WideString := s.aliasesByExe.map (·.1)

/-- The alias list of `exe`, the executables and the command history agree with their length queries. -/
def ExportsAgree (c : Converters) (cp : UInt32) (unicode : Bool) (s : AliasState) (exe : WideString)
    (commands : List (List Char)) : Prop :=
  ExportAgrees (aliasesLength c cp unicode (s.tableFor exe)) (getAliases c cp unicode (s.tableFor exe))
      ((s.tableFor exe).flatMap (aliasEntry c cp unicode)) ∧
    ExportAgrees (aliasExesLength c cp unicode s.exes) (getAliasExes c cp unicode s.exes) (s.exes.flatMap (exeEntry c cp unicode)) ∧
    ExportAgrees (ulong (commandHistoryBufferLength c cp unicode (commands.map (·.map Char.toNat))))
      (getHistory c cp unicode (commands.map (·.map Char.toNat))) (commands.flatMap (commandEntry c cp unicode))

/-- Each export fits the body of a message. -/
structure ExportsFit (c : Converters) (cp : UInt32) (unicode : Bool) (s : AliasState) (exe : WideString)
    (commands : List (List Char)) : Prop where
  aliases : ((s.tableFor exe).flatMap (aliasEntry c cp unicode)).length ≤ exportRoom
  exes : (s.exes.flatMap (exeEntry c cp unicode)).length ≤ exportRoom
  history : (commands.flatMap (commandEntry c cp unicode)).length ≤ exportRoom

/-- `wstr_to_ansi_len` and `convert_wstr_to_ansi` are exact for names: in UTF-8, where three bytes are counted for every
unit, no byte is counted that is not written (in `ULONG`), and in a code page of Windows the two bytes for every unit that
the conversion has are enough. -/
structure ExactNames (c : Converters) (cp : UInt32) (exes : List WideString) : Prop where
  utf8 : cp = CP_UTF8 → 2 ^ 32 ∣ (exes.map (utf8Surplus c)).sum
  windows : cp ≠ CP_UTF8 → c.gbkFor cp = none → ∀ exe ∈ exes, (ansiName c cp exe).length ≤ exe.length * 2

/-- The length queries agree with the exports where these fit and where, in a code page, the executables are named so that
their lengths are exact. -/
theorem exports_agree_iff (hutf8 : ∀ ws, (c.convertToUtf8 ws).length ≤ ws.length * 3) (unicode : Bool) (s : AliasState)
    (exe : WideString) (commands : List (List Char)) :
    ExportsAgree c cp unicode s exe commands ↔
      ExportsFit c cp unicode s exe commands ∧ (unicode = false → ExactNames c cp s.exes) := by
  unfold ExportsAgree
  rw [aliases_agree_iff, history_agree_iff]
  cases unicode with
  | true =>
    rw [exes_agree_wide]
    exact ⟨fun ⟨ha, he, hh⟩ => ⟨⟨ha, he, hh⟩, fun h => nomatch h⟩, fun ⟨⟨ha, he, hh⟩, _⟩ => ⟨ha, he, hh⟩⟩
  | false =>
    rw [exes_agree_ansi hutf8]
    constructor
    · rintro ⟨ha, ⟨he, hu, hw⟩, hh⟩
      exact ⟨⟨ha, he, hh⟩, fun _ => ⟨hu, hw⟩⟩
    · rintro ⟨⟨ha, he, hh⟩, hnames⟩
      exact ⟨ha, ⟨he, (hnames rfl).utf8, (hnames rfl).windows⟩, hh⟩

/-- Conversions of ASCII text. -/
def asciiConverters : Converters where
  wideCharToMultiByte _ ws := ws.map (·.toUInt8)
  convertToUtf8 ws := ws.map (·.toUInt8)
  gbk := none

/-- `cmd.exe`. -/
def cmdExe : WideString := [0x63, 0x6D, 0x64, 0x2E, 0x65, 0x78, 0x65]

/-- `cmd.exe` with the alias `l` for `ls`. -/
def cmdAliases : AliasState := { aliasesByExe := [(cmdExe, [([0x6C], [0x6C, 0x73])])] }

/-- In the OEM code page the lengths for `cmd.exe` are exact. -/
theorem exports_agree_oem : ExportsAgree asciiConverters 437 false cmdAliases cmdExe [['d', 'i', 'r']] := by
  have hutf8 (ws : WideString) : (asciiConverters.convertToUtf8 ws).length ≤ ws.length * 3 := by
    change (ws.map _).length ≤ _
    rw [List.length_map]
    omega
  refine (exports_agree_iff hutf8 false cmdAliases cmdExe _).mpr ⟨⟨by decide, by decide, by decide⟩, fun _ => ⟨?_, ?_⟩⟩
  · exact fun hcp => absurd hcp (by decide)
  · exact fun _ _ => by decide

/-- In UTF-8, 22 bytes are counted for `cmd.exe` and 8 are written. -/
theorem exes_disagree_utf8 : aliasExesLength asciiConverters CP_UTF8 false cmdAliases.exes = 22 ∧
    getAliasExes asciiConverters CP_UTF8 false cmdAliases.exes (8 + 22) =
      some [0x63, 0x6D, 0x64, 0x2E, 0x65, 0x78, 0x65, 0] ∧
    ¬ ExportsAgree asciiConverters CP_UTF8 false cmdAliases cmdExe [] := by
  refine ⟨by decide, by decide, fun h => ?_⟩
  have hlength : ([0x63, 0x6D, 0x64, 0x2E, 0x65, 0x78, 0x65, 0] : List UInt8).length = 22 := h.2.1.2
  exact absurd hlength (by decide)

end Corehost
