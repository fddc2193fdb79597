import Corehost.Session.CursorQueries
import Corehost.Vt.RoundTrip

/-!
# The answers of the terminal

`request_cursor_sync` asks where the cursor of the terminal is and how large a
cell is. `take_resize_sync_replies` takes the answers out of the input as it is
read, and `finish_resize_sync` moves the screen to where the terminal has it
(`pipe_bridge.hpp`).

* `matchCprReply_bytes`, `matchCellSizeReply_bytes`: an answer is recognised,
  whatever follows it;
* `takeLoop_items`: a block with answers that arrive whole loses these and
  nothing else;
* `sync_replies_taken`: in every run each move of the screen is for the answer to
  the newest question.
-/

namespace Corehost

open Lib
open RoundTrip (decimal_length decimal_ne_nil decimal_value)

/-! ## The model -/

/-- The digits at the start, five at most. -/
def digitRun (data : List UInt8) : List UInt8 := (data.take 5).takeWhile fun b => 0x30 ≤ b && b ≤ 0x39

def digitsValue (digits : List UInt8) : Nat := digits.foldl (fun v b => v * 10 + (b.toNat - 0x30)) 0

/-- A number and the character behind it: its value, and what follows. -/
def matchNumber (stop : UInt8) (data : List UInt8) : Option (Nat × List UInt8) :=
  let digits := digitRun data
  if digits = [] ∨ (data.drop digits.length).head? ≠ some stop then none
  else some (digitsValue digits, data.drop (digits.length + 1))

/-- An answer with two numbers behind `lead`: its length and the numbers. -/
def matchReply (lead : List UInt8) (stop : UInt8) (data : List UInt8) : Option (Nat × Nat × Nat) :=
  if data.length < lead.length + 4 ∨ !lead.isPrefixOf data then none
  else
    (matchNumber 0x3B (data.drop lead.length)).bind fun first =>
      (matchNumber stop first.2).bind fun second =>
        if first.1 = 0 ∨ second.1 = 0 then none else some (data.length - second.2.length, first.1, second.1)

/-- `ESC [ row ; col R`, and the position that it reports. -/
def matchCprReply (data : List UInt8) : Option (Nat × Coord) :=
  (matchReply [0x1B, 0x5B] 0x52 data).map fun (n, row, col) => (n, ⟨i16 (col - 1), i16 (row - 1)⟩)

/-- `ESC [ 6 ; h ; w t`, and the height and the width. -/
def matchCellSizeReply (data : List UInt8) : Option (Nat × Nat × Nat) := matchReply [0x1B, 0x5B, 0x36, 0x3B] 0x74 data

/-- A session with the size of a cell. `synced` records the calls of
`finish_resize_sync`: the position of the question and the one reported. -/
structure ReplyConsole extends SyncConsole where
  cellPxW : Nat := 0
  cellPxH : Nat := 0
  synced : List (Coord × Coord) := []
deriving DecidableEq, Repr

namespace ReplyConsole

/-- What `request_cursor_sync` changes. -/
def requestCursorSync (s : ReplyConsole) : ReplyConsole :=
  { s with
    resizeSyncCursor := s.sb.viewport.relativePosition s.state.position
    resizeSyncOutstanding := s.resizeSyncOutstanding + 1
    cellSizeOutstanding := s.cellSizeOutstanding + 1 }

/-- The answer with a position. -/
def cursorReported (s : ReplyConsole) (reported : Coord) : ReplyConsole :=
  let s := { s with resizeSyncOutstanding := s.resizeSyncOutstanding - 1 }
  if s.resizeSyncOutstanding = 0 then
    { s with
      toScreenSession := s.toScreenSession.finishResizeSync s.resizeSyncCursor reported
      synced := s.synced ++ [(s.resizeSyncCursor, reported)] }
  else s

/-- The answer with the size of a cell. -/
def cellSizeReported (s : ReplyConsole) (h w : Nat) : ReplyConsole :=
  { s with
    cellSizeOutstanding := s.cellSizeOutstanding - 1
    cellPxW := w
    cellPxH := h }

/-- An answer at the start, with its length, if one is waited for. -/
def takeReply (s : ReplyConsole) (data : List UInt8) : Option (Nat × ReplyConsole) :=
  match if s.resizeSyncOutstanding > 0 ∧ data.head? = some 0x1B then matchCprReply data else none with
  | some (n, reported) => some (n, s.cursorReported reported)
  | none =>
    (if s.cellSizeOutstanding > 0 ∧ data.head? = some 0x1B then matchCellSizeReply data else none).map fun (n, h, w) =>
      (n, s.cellSizeReported h w)

/-- The loop of `take_resize_sync_replies`, for at most `n` turns. -/
def takeLoop : Nat → ReplyConsole → List UInt8 → List UInt8 × ReplyConsole
  | 0, s, _ => ([], s)
  | _ + 1, s, [] => ([], s)
  | n + 1, s, b :: data =>
    match s.takeReply (b :: data) with
    | some (k, s) => takeLoop n s ((b :: data).drop k)
    | none => ((b :: (takeLoop n s data).1), (takeLoop n s data).2)

/-- `take_resize_sync_replies`: what is left of the bytes. -/
def takeResizeSyncReplies (s : ReplyConsole) (data : List UInt8) : List UInt8 × ReplyConsole :=
  if s.resizeSyncOutstanding = 0 ∧ s.cellSizeOutstanding = 0 then (data, s) else takeLoop data.length s data

end ReplyConsole

/-! ## The terminal -/

/-- A number that an answer may have. -/
abbrev ReplyNumber := { n : Nat // 1 ≤ n ∧ n ≤ 0x7FFF }

/-- What the terminal writes: the bytes of a key or of a text, or an answer. The
position of an answer counts from 1, and `asked` is the cursor of the screen at the question. -/
inductive TerminalItem where
  | typed (bytes : List UInt8)
  | cursor (asked : Coord) (row col : ReplyNumber)
  | cellSize (h w : ReplyNumber)
deriving DecidableEq, Repr

def numberBytes (n : Nat) : List UInt8 := (decimal n).map UInt8.ofNat

namespace TerminalItem

def bytes : TerminalItem → List UInt8
  | .typed bytes => bytes
  | .cursor _ row col => [0x1B, 0x5B] ++ numberBytes row ++ [0x3B] ++ numberBytes col ++ [0x52]
  | .cellSize h w => [0x1B, 0x5B, 0x36, 0x3B] ++ numberBytes h ++ [0x3B] ++ numberBytes w ++ [0x74]

def typedBytes : TerminalItem → List UInt8
  | .typed bytes => bytes
  | _ => []

/-- The question and the answer. -/
def answer : TerminalItem → List (Coord × Coord)
  | .cursor asked row col => [(asked, ⟨col - 1, row - 1⟩)]
  | _ => []

def isCellSize : TerminalItem → Bool
  | .cellSize _ _ => true
  | _ => false

/-- Nothing that was typed looks like an answer where it stands. -/
def Unmistaken : List TerminalItem → Prop
  | [] => True
  | item :: items => (∀ suffix, suffix ≠ [] → suffix <:+ item.typedBytes →
      matchCprReply (suffix ++ items.flatMap bytes) = none ∧ matchCellSizeReply (suffix ++ items.flatMap bytes) = none) ∧
    Unmistaken items

end TerminalItem

/-! ## Numbers -/

theorem uInt8_ofNat_digit {ch : Nat} (h : isDigit ch = true) : (UInt8.ofNat ch).toNat = ch := by
  simp only [isDigit, Bool.and_eq_true, decide_eq_true_eq] at h
  rw [UInt8.toNat_ofNat']
  exact Nat.mod_eq_of_lt (Nat.lt_of_le_of_lt h.2 (by decide))

theorem numberBytes_digit (n : Nat) : ∀ b ∈ numberBytes n, (0x30 ≤ b && b ≤ 0x39) = true := by
  intro b hb
  obtain ⟨ch, hch, rfl⟩ := List.mem_map.mp hb
  have hdigit := decimal_isDigit n ch hch
  have hval := uInt8_ofNat_digit hdigit
  simp only [isDigit, Bool.and_eq_true, decide_eq_true_eq] at hdigit
  rw [Bool.and_eq_true, decide_eq_true_eq, decide_eq_true_eq, UInt8.le_iff_toNat_le, UInt8.le_iff_toNat_le, hval]
  exact hdigit

/-- A number in front of another character. -/
theorem matchNumber_bytes {n : Nat} (h : n ≤ 0x7FFF) {c : UInt8} (hc : (0x30 ≤ c && c ≤ 0x39) = false) (stop : UInt8)
    (rest : List UInt8) : matchNumber stop (numberBytes n ++ c :: rest) = if c = stop then some (n, rest) else none := by
  have hlen : (numberBytes n).length ≤ 5 := by
    rw [numberBytes, List.length_map]
    exact decimal_length h
  have hrun : digitRun (numberBytes n ++ c :: rest) = numberBytes n := by
    rw [digitRun, List.take_append, List.take_of_length_le hlen, List.takeWhile_append_of_pos (numberBytes_digit n)]
    cases 5 - (numberBytes n).length with
    | zero => simp
    | succ k => rw [List.take_succ_cons, List.takeWhile_cons_of_neg (by rw [hc]; simp), List.append_nil]
  have hvalue : digitsValue (numberBytes n) = n := by
    rw [digitsValue, numberBytes, List.foldl_map]
    refine (List.foldl_ext _ _ _ fun v ch hch => ?_).trans (decimal_value n)
    rw [uInt8_ofNat_digit (decimal_isDigit n ch hch)]
  have hne : numberBytes n ≠ [] := by simpa [numberBytes] using decimal_ne_nil n
  rw [matchNumber, hrun, List.drop_left, hvalue, ← List.drop_drop, List.drop_left]
  by_cases hstop : c = stop
  · rw [if_neg (by simp [hne, hstop]), if_pos hstop]
    rfl
  · rw [if_pos (by simp [hstop]), if_neg hstop]

theorem matchReply_bytes {a b : ReplyNumber} {lead : List UInt8} {stop : UInt8}
    (hstop : (0x30 ≤ stop && stop ≤ 0x39) = false) (rest : List UInt8) :
    matchReply lead stop (lead ++ numberBytes a ++ [0x3B] ++ numberBytes b ++ [stop] ++ rest) =
      some ((lead ++ numberBytes a ++ [0x3B] ++ numberBytes b ++ [stop]).length, a.1, b.1) := by
  have hne (n : Nat) : (numberBytes n).length ≠ 0 := by simpa [numberBytes] using decimal_ne_nil n
  have ha := hne a
  have hb := hne b
  have hlead : lead.isPrefixOf (lead ++ (numberBytes a ++ 0x3B :: (numberBytes b ++ stop :: rest))) = true :=
    List.isPrefixOf_iff_prefix.mpr (List.prefix_append ..)
  have hdata : lead ++ numberBytes a ++ [0x3B] ++ numberBytes b ++ [stop] ++ rest =
      lead ++ (numberBytes a ++ 0x3B :: (numberBytes b ++ stop :: rest)) := by simp
  rw [hdata, matchReply, if_neg (by rw [hlead]; simp only [List.length_append, List.length_cons]; simp; omega), List.drop_left,
    matchNumber_bytes a.2.2 (by decide), if_pos rfl, Option.bind_some]
  dsimp only
  rw [matchNumber_bytes b.2.2 hstop, if_pos rfl, Option.bind_some]
  dsimp only
  rw [if_neg (by have := a.2.1; have := b.2.1; omega)]
  simp only [List.length_append, List.length_cons, List.length_nil, Option.some.injEq, Prod.mk.injEq, and_true]
  omega

/-- A position that is reported, whatever follows. -/
theorem matchCprReply_bytes (asked : Coord) (row col : ReplyNumber) (rest : List UInt8) :
    matchCprReply ((TerminalItem.cursor asked row col).bytes ++ rest) =
      some ((TerminalItem.cursor asked row col).bytes.length, ⟨col - 1, row - 1⟩) := by
  have hrow := row.2
  have hcol := col.2
  rw [matchCprReply, TerminalItem.bytes, matchReply_bytes (by decide), Option.map_some]
  dsimp only
  rw [i16_of_range (by omega) (by omega), i16_of_range (by omega) (by omega)]

theorem matchCellSizeReply_bytes (h w : ReplyNumber) (rest : List UInt8) :
    matchCellSizeReply ((TerminalItem.cellSize h w).bytes ++ rest) = some ((TerminalItem.cellSize h w).bytes.length, ↑h, ↑w) :=
  matchReply_bytes (by decide) rest

/-- The size of a cell is not taken for a position. -/
theorem matchCprReply_cellSize (h w : ReplyNumber) (rest : List UInt8) :
    matchCprReply ((TerminalItem.cellSize h w).bytes ++ rest) = none := by
  have hdata : ((TerminalItem.cellSize h w).bytes ++ rest).drop 2 =
      numberBytes 6 ++ 0x3B :: (numberBytes h ++ 0x3B :: (numberBytes w ++ 0x74 :: rest)) := by
    simp [TerminalItem.bytes, show numberBytes 6 = [0x36] from rfl]
  rw [matchCprReply, matchReply]
  split_ifs
  · rfl
  · rw [List.length_cons, List.length_singleton, hdata, matchNumber_bytes (by decide) (by decide), if_pos rfl, Option.bind_some]
    dsimp only
    rw [matchNumber_bytes h.2.2 (by decide), if_neg (by decide)]
    rfl

/-! ## A block of input -/

namespace ReplyConsole

open TerminalItem (Unmistaken)

variable {s : ReplyConsole} {data : List UInt8} {items : List TerminalItem}

/-- What an item does to the session, apart from what it types. -/
def heed (s : ReplyConsole) : TerminalItem → ReplyConsole
  | .typed _ => s
  | .cursor _ row col => s.cursorReported ⟨col - 1, row - 1⟩
  | .cellSize h w => s.cellSizeReported h w

@[simp] theorem resizeSyncOutstanding_cursorReported (s : ReplyConsole) (reported : Coord) :
    (s.cursorReported reported).resizeSyncOutstanding = s.resizeSyncOutstanding - 1 := by
  rw [cursorReported]
  split_ifs <;> rfl

@[simp] theorem cellSizeOutstanding_cursorReported (s : ReplyConsole) (reported : Coord) :
    (s.cursorReported reported).cellSizeOutstanding = s.cellSizeOutstanding := by
  rw [cursorReported]
  split_ifs <;> rfl

theorem takeLoop_nil (n : Nat) (s : ReplyConsole) : s.takeLoop n [] = ([], s) := by
  cases n <;> rfl

theorem takeReply_none (hcpr : matchCprReply data = none) (hsize : matchCellSizeReply data = none) : s.takeReply data = none := by
  rw [takeReply, hcpr, hsize, ite_self, ite_self]
  rfl

theorem takeReply_cursor (hs : 0 < s.resizeSyncOutstanding) (asked : Coord) (row col : ReplyNumber) (rest : List UInt8) :
    s.takeReply ((TerminalItem.cursor asked row col).bytes ++ rest) =
      some ((TerminalItem.cursor asked row col).bytes.length, s.cursorReported ⟨col - 1, row - 1⟩) := by
  rw [takeReply, if_pos ⟨hs, rfl⟩, matchCprReply_bytes]

theorem takeReply_cellSize (hs : 0 < s.cellSizeOutstanding) (h w : ReplyNumber) (rest : List UInt8) :
    s.takeReply ((TerminalItem.cellSize h w).bytes ++ rest) =
      some ((TerminalItem.cellSize h w).bytes.length, s.cellSizeReported h w) := by
  rw [takeReply, matchCprReply_cellSize, ite_self]
  dsimp only
  rw [if_pos ⟨hs, rfl⟩, matchCellSizeReply_bytes]
  rfl

/-- What is taken out. -/
theorem takeLoop_taken {n k : Nat} {s' : ReplyConsole} {item rest : List UInt8} (hne : item ≠ []) (hk : k = item.length)
    (h : s.takeReply (item ++ rest) = some (k, s')) : s.takeLoop (n + 1) (item ++ rest) = s'.takeLoop n rest := by
  obtain ⟨b, item, rfl⟩ := List.exists_cons_of_ne_nil hne
  rw [List.cons_append] at h ⊢
  rw [takeLoop, h]
  dsimp only
  rw [hk, ← List.cons_append, List.drop_left]

/-- What is typed stays. -/
theorem takeLoop_typed {rest : List UInt8} : ∀ {bytes : List UInt8} (n : Nat), (∀ suffix, suffix ≠ [] → suffix <:+ bytes →
      matchCprReply (suffix ++ rest) = none ∧ matchCellSizeReply (suffix ++ rest) = none) →
    s.takeLoop (n + bytes.length) (bytes ++ rest) = (bytes ++ (s.takeLoop n rest).1, (s.takeLoop n rest).2)
  | [], _, _ => rfl
  | b :: bytes, n, h => by
    obtain ⟨hcpr, hsize⟩ := h (b :: bytes) (by simp) (List.suffix_refl _)
    have ih := takeLoop_typed n fun suffix hne hsuffix => h suffix hne (hsuffix.trans (List.suffix_cons b bytes))
    rw [List.cons_append] at hcpr hsize ⊢
    rw [List.length_cons, ← Nat.add_assoc, takeLoop, takeReply_none hcpr hsize, ih]
    rfl

/-- Where no answer is awaited the loop would do nothing. -/
theorem takeResizeSyncReplies_eq (s : ReplyConsole) (data : List UInt8) :
    s.takeResizeSyncReplies data = s.takeLoop data.length data := by
  unfold takeResizeSyncReplies
  split_ifs with hidle
  · obtain ⟨hcursor, hsize⟩ := hidle
    have hnone (data : List UInt8) : s.takeReply data = none := by
      rw [takeReply, hcursor, hsize, if_neg fun h => absurd h.1 (by decide), if_neg fun h => absurd h.1 (by decide)]
      rfl
    induction data with
    | nil => rfl
    | cons b data ih => rw [List.length_cons, takeLoop, hnone, ← ih]
  · rfl

/-- The answers are taken out, and nothing else. -/
theorem takeLoop_items : ∀ (items : List TerminalItem) {s : ReplyConsole} {n : Nat}, (items.flatMap TerminalItem.bytes).length ≤ n →
    Unmistaken items → ((items.flatMap TerminalItem.answer).length : Int) ≤ s.resizeSyncOutstanding →
    (items.countP TerminalItem.isCellSize : Int) ≤ s.cellSizeOutstanding →
    s.takeLoop n (items.flatMap TerminalItem.bytes) = (items.flatMap TerminalItem.typedBytes, items.foldl heed s)
  | [], s, n, _, _, _, _ => takeLoop_nil n s
  | .typed bytes :: items, s, n, hn, hitems, hcursors, hsizes => by
    rw [List.flatMap_cons, List.length_append] at hn
    obtain ⟨n, rfl⟩ := Nat.exists_eq_add_of_le (Nat.le_of_add_right_le hn)
    have ih := takeLoop_items items (s := s) (n := n) (by simp only [TerminalItem.bytes] at hn; omega) hitems.2
      (by simpa [TerminalItem.answer] using hcursors) (by simpa [TerminalItem.isCellSize] using hsizes)
    rw [List.flatMap_cons, Nat.add_comm]
    change s.takeLoop (n + bytes.length) (bytes ++ _) = _
    rw [@takeLoop_typed s _ bytes n hitems.1, ih]
    rfl
  | .cursor asked row col :: items, s, n, hn, hitems, hcursors, hsizes => by
    have hbytes : 0 < (TerminalItem.cursor asked row col).bytes.length := Nat.succ_pos _
    rw [List.flatMap_cons, List.length_append] at hn hcursors
    rw [show TerminalItem.answer (.cursor asked row col) = [(asked, ⟨col - 1, row - 1⟩)] from rfl, List.length_singleton] at hcursors
    obtain ⟨n, rfl⟩ : ∃ k, n = k + 1 := Nat.exists_eq_succ_of_ne_zero (by omega)
    rw [List.flatMap_cons, takeLoop_taken (List.ne_nil_of_length_pos hbytes) rfl (takeReply_cursor (by omega) asked row col _)]
    exact takeLoop_items items (by omega) hitems.2 (by rw [resizeSyncOutstanding_cursorReported]; omega)
      (by rw [cellSizeOutstanding_cursorReported]; exact hsizes)
  | .cellSize h w :: items, s, n, hn, hitems, hcursors, hsizes => by
    have hbytes : 0 < (TerminalItem.cellSize h w).bytes.length := Nat.succ_pos _
    rw [List.flatMap_cons, List.length_append] at hn
    rw [List.countP_cons_of_pos (by rfl)] at hsizes
    obtain ⟨n, rfl⟩ : ∃ k, n = k + 1 := Nat.exists_eq_succ_of_ne_zero (by omega)
    rw [List.flatMap_cons, takeLoop_taken (List.ne_nil_of_length_pos hbytes) rfl (takeReply_cellSize (by omega) h w _)]
    exact takeLoop_items items (by omega) hitems.2 hcursors (by simp only [cellSizeReported]; omega)

end ReplyConsole

/-! ## A session and its terminal -/

/-- A session, the questions that the terminal has not answered, and what it has
written that is not read yet. `answered` and `typed` record what it has written,
`delivered` what was read and not taken out. -/
structure ReplyRun where
  console : ReplyConsole
  asked : List Coord := []
  sizesAsked : Nat := 0
  pipe : List TerminalItem := []
  answered : List (Coord × Coord) := []
  typed : List UInt8 := []
  delivered : List UInt8 := []

inductive ReplyEvent where
  | ask
  /-- output, a resize or another change of the screens -/
  | screens (next : ReplyConsole)
  | answerCursor (row col : ReplyNumber)
  | answerCellSize (h w : ReplyNumber)
  | typing (bytes : List UInt8)
  /-- a read of the next `n` items -/
  | read (n : Nat)

namespace ReplyRun

/-- The size of a cell is asked for at the start. -/
def start (screens : ReplyConsole) : ReplyRun where
  console := { screens with
    resizeSyncOutstanding := 0
    cellSizeOutstanding := 1
    synced := [] }
  sizesAsked := 1

/-- The terminal answers in the order of the questions. -/
def step (s : ReplyRun) : ReplyEvent → Option ReplyRun
  | .ask => some { s with
      console := s.console.requestCursorSync
      asked := s.asked ++ [s.console.sb.viewport.relativePosition s.console.state.position]
      sizesAsked := s.sizesAsked + 1 }
  | .screens next => some { s with
      console := { next with
        resizeSyncCursor := s.console.resizeSyncCursor
        resizeSyncOutstanding := s.console.resizeSyncOutstanding
        cellSizeOutstanding := s.console.cellSizeOutstanding
        synced := s.console.synced } }
  | .answerCursor row col =>
    match s.asked with
    | [] => none
    | position :: asked => some { s with
        asked := asked
        pipe := s.pipe ++ [.cursor position row col]
        answered := s.answered ++ [(position, ⟨col - 1, row - 1⟩)] }
  | .answerCellSize h w =>
    if s.sizesAsked = 0 then none
    else some { s with
      sizesAsked := s.sizesAsked - 1
      pipe := s.pipe ++ [.cellSize h w] }
  | .typing bytes => some { s with
      pipe := s.pipe ++ [.typed bytes]
      typed := s.typed ++ bytes }
  | .read n =>
    let (data, console) := s.console.takeResizeSyncReplies ((s.pipe.take n).flatMap TerminalItem.bytes)
    some { s with
      console := console
      pipe := s.pipe.drop n
      delivered := s.delivered ++ data }

/-- Nothing typed in the block of a read looks like an answer. -/
def ReadsApart (s : ReplyRun) : ReplyEvent → Prop
  | .read n => TerminalItem.Unmistaken (s.pipe.take n)
  | _ => True

/-- No byte that was typed is lost. Every move of the screen is for an answer and the
question that it answers, in their order; behind the last answer, one was for that answer. -/
structure Answered (s : ReplyRun) : Prop where
  typed : s.delivered ++ s.pipe.flatMap TerminalItem.typedBytes = s.typed
  synced : s.console.synced.Sublist s.answered
  settled : s.asked = [] → s.pipe.flatMap TerminalItem.answer = [] →
    s.console.resizeSyncOutstanding = 0 ∧ s.console.synced.getLast? = s.answered.getLast?

/-- The answers that are awaited, and what those that were read have done. -/
structure Awaits (s : ReplyRun) : Prop where
  typed : s.delivered ++ s.pipe.flatMap TerminalItem.typedBytes = s.typed
  outstanding : s.console.resizeSyncOutstanding = s.asked.length + (s.pipe.flatMap TerminalItem.answer).length
  sizes : s.console.cellSizeOutstanding = s.sizesAsked + s.pipe.countP TerminalItem.isCellSize
  taken : ∃ taken, s.answered = taken ++ s.pipe.flatMap TerminalItem.answer ∧ s.console.synced.Sublist taken ∧
    (s.console.resizeSyncOutstanding = 0 → s.console.synced.getLast? = taken.getLast?)
  newest : s.console.resizeSyncOutstanding ≠ 0 →
    ((s.pipe.flatMap TerminalItem.answer).map Prod.fst ++ s.asked).getLast? = some s.console.resizeSyncCursor

variable {s : ReplyRun}

theorem Awaits.answered (hs : s.Awaits) : s.Answered := by
  obtain ⟨taken, htaken, hsynced, hlast⟩ := hs.taken
  refine ⟨hs.typed, ?_, fun hasked hpipe => ?_⟩
  · rw [htaken]
    exact hsynced.trans (List.sublist_append_left ..)
  · have hzero : s.console.resizeSyncOutstanding = 0 := by
      rw [hs.outstanding, hasked, hpipe]
      rfl
    rw [htaken, hpipe, List.append_nil]
    exact ⟨hzero, hlast hzero⟩

/-! ### Reads -/

/-- An item is read. -/
def readItem (s : ReplyRun) (item : TerminalItem) (pipe : List TerminalItem) : ReplyRun :=
  { s with
    console := s.console.heed item
    pipe := pipe
    delivered := s.delivered ++ item.typedBytes }

theorem Awaits.readItem (hs : s.Awaits) {item : TerminalItem} {pipe : List TerminalItem} (hpipe : s.pipe = item :: pipe) :
    (s.readItem item pipe).Awaits := by
  obtain ⟨htyped, houtstanding, hsizes, ⟨taken, htaken, hsynced, hlast⟩, hnewest⟩ := hs
  rw [hpipe, List.flatMap_cons] at htyped houtstanding htaken hnewest
  rw [hpipe] at hsizes
  have htyped' : (s.delivered ++ item.typedBytes) ++ pipe.flatMap TerminalItem.typedBytes = s.typed :=
    (List.append_assoc ..).trans htyped
  cases item with
  | typed bytes => exact ⟨htyped', houtstanding, hsizes, ⟨taken, htaken, hsynced, hlast⟩, hnewest⟩
  | cellSize h w =>
    rw [List.countP_cons_of_pos (by rfl)] at hsizes
    refine ⟨htyped', houtstanding, ?_, ⟨taken, htaken, hsynced, hlast⟩, hnewest⟩
    simp only [ReplyRun.readItem, ReplyConsole.heed, ReplyConsole.cellSizeReported]
    omega
  | cursor asked row col =>
    rw [show (TerminalItem.cursor asked row col).answer = [(asked, ⟨col - 1, row - 1⟩)] from rfl, List.singleton_append]
      at houtstanding htaken hnewest
    rw [List.length_cons] at houtstanding
    rw [List.map_cons, List.cons_append] at hnewest
    have hnewest := hnewest (by omega)
    have htaken' : s.answered = (taken ++ [(asked, ⟨col - 1, row - 1⟩)]) ++ pipe.flatMap TerminalItem.answer := by simpa using htaken
    by_cases hzero : s.console.resizeSyncOutstanding - 1 = 0
    · have hasked : s.asked = [] := List.length_eq_zero_iff.mp (by omega)
      have hanswers : pipe.flatMap TerminalItem.answer = [] := List.length_eq_zero_iff.mp (by omega)
      have hcursor : asked = s.console.resizeSyncCursor := by
        rw [hasked, hanswers] at hnewest
        exact Option.some.inj hnewest
      have hsynced' : (s.console.cursorReported ⟨col - 1, row - 1⟩).synced = s.console.synced ++ [(asked, ⟨col - 1, row - 1⟩)] := by
        rw [ReplyConsole.cursorReported, if_pos hzero, hcursor]
      refine ⟨htyped', ?_, ?_, ⟨_, htaken', ?_, fun _ => ?_⟩, fun h => absurd ?_ h⟩
      · simp only [ReplyRun.readItem, ReplyConsole.heed, ReplyConsole.resizeSyncOutstanding_cursorReported]
        omega
      · exact (ReplyConsole.cellSizeOutstanding_cursorReported ..).trans hsizes
      · exact hsynced' ▸ hsynced.append_right _
      · simp only [ReplyRun.readItem, ReplyConsole.heed]
        rw [hsynced', List.getLast?_concat, List.getLast?_concat]
      · exact (ReplyConsole.resizeSyncOutstanding_cursorReported ..).trans hzero
    · have hreported : s.console.cursorReported ⟨col - 1, row - 1⟩ =
          { s.console with resizeSyncOutstanding := s.console.resizeSyncOutstanding - 1 } := by
        rw [ReplyConsole.cursorReported, if_neg hzero]
      simp only [ReplyRun.readItem, ReplyConsole.heed, hreported]
      refine ⟨htyped', ?_, hsizes, ⟨_, htaken', hsynced.trans (List.sublist_append_left ..), fun h => absurd h hzero⟩, fun _ => ?_⟩
      · dsimp only
        omega
      · have hne : (pipe.flatMap TerminalItem.answer).map Prod.fst ++ s.asked ≠ [] := by
          rw [← List.length_pos_iff, List.length_append, List.length_map]
          omega
        rw [List.getLast?_cons_of_ne_nil hne] at hnewest
        exact hnewest

/-- The items of a block, one after the other. -/
theorem Awaits.foldl : ∀ (block : List TerminalItem) {s : ReplyRun} {pipe : List TerminalItem}, s.Awaits → s.pipe = block ++ pipe →
    { s with
      console := block.foldl ReplyConsole.heed s.console
      pipe := pipe
      delivered := s.delivered ++ block.flatMap TerminalItem.typedBytes : ReplyRun }.Awaits
  | [], s, pipe, hs, hpipe => by
    rw [List.flatMap_nil, List.append_nil, ← (show s.pipe = pipe from hpipe)]
    exact hs
  | item :: block, s, pipe, hs, hpipe => by
    have h := Awaits.foldl block (hs.readItem hpipe) rfl
    rwa [ReplyRun.readItem, List.append_assoc, ← List.flatMap_cons] at h

theorem Awaits.read (hs : s.Awaits) {n : Nat} (h : TerminalItem.Unmistaken (s.pipe.take n)) {s' : ReplyRun}
    (hs' : s.step (.read n) = some s') : s'.Awaits := by
  have hsplit : s.pipe = s.pipe.take n ++ s.pipe.drop n := (List.take_append_drop ..).symm
  have houtstanding := hs.outstanding
  have hsizes := hs.sizes
  rw [hsplit, List.flatMap_append, List.length_append] at houtstanding
  rw [hsplit, List.countP_append] at hsizes
  have htake : s.console.takeResizeSyncReplies ((s.pipe.take n).flatMap TerminalItem.bytes) =
      ((s.pipe.take n).flatMap TerminalItem.typedBytes, (s.pipe.take n).foldl ReplyConsole.heed s.console) := by
    rw [ReplyConsole.takeResizeSyncReplies_eq]
    exact ReplyConsole.takeLoop_items _ (Nat.le_refl _) h (by omega) (by omega)
  rw [step, htake] at hs'
  obtain rfl := Option.some.inj hs'
  exact Awaits.foldl _ hs hsplit

/-! ### The other events -/

theorem Awaits.ask (hs : s.Awaits) {s' : ReplyRun} (hs' : s.step .ask = some s') : s'.Awaits := by
  obtain ⟨htyped, houtstanding, hsizes, ⟨taken, htaken, hsynced, -⟩, -⟩ := hs
  obtain rfl := Option.some.inj hs'
  refine ⟨htyped, ?_, ?_, ⟨taken, htaken, hsynced, fun h => absurd h ?_⟩, fun _ => ?_⟩
  · simp only [ReplyConsole.requestCursorSync, List.length_append, List.length_singleton]
    omega
  · simp only [ReplyConsole.requestCursorSync]
    omega
  · simp only [ReplyConsole.requestCursorSync]
    omega
  · rw [← List.append_assoc, List.getLast?_concat]
    rfl

/-- The terminal answers the oldest question. -/
theorem Awaits.answerCursor (hs : s.Awaits) {row col : ReplyNumber} {s' : ReplyRun}
    (hs' : s.step (.answerCursor row col) = some s') : s'.Awaits := by
  obtain ⟨htyped, houtstanding, hsizes, ⟨taken, htaken, hsynced, hlast⟩, hnewest⟩ := hs
  rw [step] at hs'
  cases hasked : s.asked with
  | nil =>
    rw [hasked] at hs'
    cases hs'
  | cons position asked =>
    rw [hasked] at hs' houtstanding hnewest
    obtain rfl := Option.some.inj hs'
    have hpipe : (s.pipe ++ [TerminalItem.cursor position row col]).flatMap TerminalItem.answer =
        s.pipe.flatMap TerminalItem.answer ++ [(position, ⟨col - 1, row - 1⟩)] := List.flatMap_append
    refine ⟨?_, ?_, ?_, ⟨taken, ?_, hsynced, hlast⟩, fun h => ?_⟩
    · rw [List.flatMap_append, ← htyped]
      simp [TerminalItem.typedBytes]
    · dsimp only
      rw [hpipe, houtstanding, List.length_append, List.length_cons, List.length_singleton]
      omega
    · rw [List.countP_append]
      exact hsizes
    · dsimp only
      rw [hpipe, htaken, List.append_assoc]
    · dsimp only
      rw [hpipe, List.map_append, List.append_assoc]
      exact hnewest h

theorem Awaits.answerCellSize (hs : s.Awaits) {h w : ReplyNumber} {s' : ReplyRun}
    (hs' : s.step (.answerCellSize h w) = some s') : s'.Awaits := by
  obtain ⟨htyped, houtstanding, hsizes, ⟨taken, htaken, hsynced, hlast⟩, hnewest⟩ := hs
  rw [step] at hs'
  split_ifs at hs' with hnone
  obtain rfl := Option.some.inj hs'
  have hpipe : (s.pipe ++ [TerminalItem.cellSize h w]).flatMap TerminalItem.answer = s.pipe.flatMap TerminalItem.answer := by
    simp [TerminalItem.answer]
  refine ⟨?_, ?_, ?_, ⟨taken, ?_, hsynced, hlast⟩, ?_⟩
  · rw [List.flatMap_append, ← htyped]
    simp [TerminalItem.typedBytes]
  · dsimp only
    rw [hpipe, houtstanding]
  · dsimp only
    rw [List.countP_append, hsizes, List.countP_singleton, if_pos (by rfl)]
    omega
  · rw [hpipe, htaken]
  · dsimp only
    rw [hpipe]
    exact hnewest

theorem Awaits.typing (hs : s.Awaits) {bytes : List UInt8} {s' : ReplyRun} (hs' : s.step (.typing bytes) = some s') :
    s'.Awaits := by
  obtain ⟨htyped, houtstanding, hsizes, ⟨taken, htaken, hsynced, hlast⟩, hnewest⟩ := hs
  obtain rfl := Option.some.inj hs'
  have hpipe : (s.pipe ++ [TerminalItem.typed bytes]).flatMap TerminalItem.answer = s.pipe.flatMap TerminalItem.answer := by
    simp [TerminalItem.answer]
  refine ⟨?_, ?_, ?_, ⟨taken, ?_, hsynced, hlast⟩, ?_⟩
  · rw [List.flatMap_append, ← htyped]
    simp [TerminalItem.typedBytes]
  · dsimp only
    rw [hpipe, houtstanding]
  · rw [List.countP_append]
    exact hsizes
  · rw [hpipe, htaken]
  · dsimp only
    rw [hpipe]
    exact hnewest

theorem Awaits.step (hs : s.Awaits) {e : ReplyEvent} (he : s.ReadsApart e) {s' : ReplyRun} (hs' : s.step e = some s') :
    s'.Awaits := by
  cases e with
  | ask => exact hs.ask hs'
  | screens next =>
    obtain rfl := Option.some.inj hs'
    exact ⟨hs.typed, hs.outstanding, hs.sizes, hs.taken, hs.newest⟩
  | answerCursor row col => exact hs.answerCursor hs'
  | answerCellSize h w => exact hs.answerCellSize hs'
  | typing bytes => exact hs.typing hs'
  | read n => exact hs.read he hs'

theorem Awaits.start (screens : ReplyConsole) : (start screens).Awaits :=
  ⟨rfl, rfl, rfl, ⟨[], rfl, List.Sublist.refl _, fun _ => rfl⟩, fun h => absurd rfl h⟩

/-! ### Plain text -/

/-- What is typed begins no sequence. -/
def Plain : ReplyEvent → Prop
  | .typing bytes => 0x1B ∉ bytes
  | _ => True

theorem matchReply_plain {b : UInt8} (hb : b ≠ 0x1B) (lead : List UInt8) (stop : UInt8) (data : List UInt8) :
    matchReply (0x1B :: lead) stop (b :: data) = none := by
  have hlead : (0x1B :: lead).isPrefixOf (b :: data) = false := by simp [List.isPrefixOf, hb.symm]
  rw [matchReply, if_pos (.inr (by rw [hlead]; rfl))]

theorem unmistaken_plain : ∀ {items : List TerminalItem}, (∀ item ∈ items, 0x1B ∉ item.typedBytes) → TerminalItem.Unmistaken items
  | [], _ => trivial
  | item :: items, h => by
    obtain ⟨hitem, hitems⟩ := List.forall_mem_cons.mp h
    refine ⟨fun suffix hne hsuffix => ?_, unmistaken_plain hitems⟩
    obtain ⟨b, rest, rfl⟩ := List.exists_cons_of_ne_nil hne
    have hb : b ≠ 0x1B := fun hb => hitem (hb ▸ hsuffix.subset List.mem_cons_self)
    rw [List.cons_append, matchCprReply, matchCellSizeReply, matchReply_plain hb, matchReply_plain hb]
    exact ⟨rfl, rfl⟩

/-- Where no escape character is typed, no read takes anything for an answer. -/
theorem readsApart_plain : ∀ (events : List ReplyEvent) {s : ReplyRun}, (∀ item ∈ s.pipe, 0x1B ∉ item.typedBytes) →
    (∀ e ∈ events, Plain e) → EveryStep step ReadsApart s events
  | [], _, _, _ => trivial
  | e :: events, s, hs, h => by
    obtain ⟨he, hevents⟩ := List.forall_mem_cons.mp h
    have hadded (item : TerminalItem) (hitem : 0x1B ∉ item.typedBytes) : ∀ x ∈ s.pipe ++ [item], 0x1B ∉ x.typedBytes := by
      intro x hx
      rcases List.mem_append.mp hx with hx | hx
      · exact hs x hx
      · exact List.mem_singleton.mp hx ▸ hitem
    refine ⟨?_, fun s' hs' => readsApart_plain events ?_ hevents⟩
    · cases e with
      | read n => exact unmistaken_plain fun item hitem => hs item (List.mem_of_mem_take hitem)
      | _ => trivial
    · cases e with
      | ask =>
        obtain rfl := Option.some.inj hs'
        exact hs
      | screens next =>
        obtain rfl := Option.some.inj hs'
        exact hs
      | answerCursor row col =>
        rw [step] at hs'
        cases hasked : s.asked with
        | nil =>
          rw [hasked] at hs'
          cases hs'
        | cons position asked =>
          rw [hasked] at hs'
          obtain rfl := Option.some.inj hs'
          exact hadded _ List.not_mem_nil
      | answerCellSize h w =>
        rw [step] at hs'
        split_ifs at hs'
        obtain rfl := Option.some.inj hs'
        exact hadded _ List.not_mem_nil
      | typing bytes =>
        obtain rfl := Option.some.inj hs'
        exact hadded _ he
      | read n =>
        obtain rfl := Option.some.inj hs'
        exact fun item hitem => hs item (List.mem_of_mem_drop hitem)

end ReplyRun

open ReplyRun

/-- In every run whose reads take no typed text for an answer, the input is what was typed, and the
screen is moved for answers and their own questions only, in the end for the last one. -/
theorem sync_replies_taken (screens : ReplyConsole) (events : List ReplyEvent)
    (h : EveryStep ReplyRun.step ReadsApart (start screens) events) :
    EveryState ReplyRun.step Answered (start screens) events :=
  everyState_of_everyStep (fun _ hs => hs.answered) (fun _ _ _ hs he hs' => hs.step he hs') events (Awaits.start screens) h

/-- Two questions, the first of them answered behind a key and read behind the second. -/
theorem sync_replies_taken_twice : EveryState ReplyRun.step Answered (start { toSyncConsole := ReplaySession.smallConsole })
    [.ask, .typing [0x61], .answerCursor ⟨3, by decide⟩ ⟨4, by decide⟩, .ask, .answerCellSize ⟨16, by decide⟩ ⟨8, by decide⟩,
      .read 3, .answerCursor ⟨5, by decide⟩ ⟨5, by decide⟩, .typing [0x62], .read 2] :=
  sync_replies_taken _ _ (readsApart_plain _ (by simp [start]) (by simp [Plain]))

end Corehost
