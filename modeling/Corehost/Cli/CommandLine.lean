import Corehost.Lib.RawBuffer
import Mathlib.Data.UInt

/-!
# Command lines

The model of `command_line_view` (`command_line.hpp`), which splits a command
line by the rules of `CommandLineToArgvW` into one buffer.

* `Split`: what one call does: it takes a part of the command line, and writes
  no more than that, except for the last terminator;
* `View.Bounded`: the invariant of the view;
* `parseNextLoop_quoted`: an argument in quotes;
* `command_line_split`: the iteration ends inside the buffer, and returns the
  arguments that were quoted.
-/

namespace Corehost.CommandLine

open Lib

/-! ## The model -/

def quoteChar : UInt16 := 0x22

def backslash : UInt16 := 0x5C

def isBlank (ch : UInt16) : Bool := ch = 0x20 ∨ ch = 0x09

/-- `command_line_view`. `rest` is the command line from `current_` on, and
`buffer` is the memory of `buffer_` with the slot of its terminator. -/
structure View where
  cmdline : List UInt16
  rest : List UInt16
  buffer : RawBuffer UInt16
deriving DecidableEq, Repr

/-- The first argument, and what is behind it. -/
def parseFirstLoop : List UInt16 → List UInt16 × List UInt16
  | [] => ([], [])
  | ch :: s =>
    if ch = quoteChar then (s.takeWhile (· ≠ quoteChar), (s.dropWhile (· ≠ quoteChar)).drop 1)
    else ((ch :: s).takeWhile (!isBlank ·), (ch :: s).dropWhile (!isBlank ·))

/-- The loop over the quotes behind a quote, with `qcount`: what it writes, the
counter, and what is behind the quotes. -/
def quoteRun (qcount : Nat) : List UInt16 → List UInt16 × Nat × List UInt16
  | [] => ([], qcount, [])
  | ch :: s =>
    if ch = quoteChar then
      if qcount + 1 = 3 then (quoteChar :: (quoteRun 0 s).1, (quoteRun 0 s).2)
      else quoteRun (qcount + 1) s
    else ([], qcount, ch :: s)

theorem quoteRun_le (qcount : Nat) (s : List UInt16) : (quoteRun qcount s).2.2.length ≤ s.length := by
  fun_induction quoteRun qcount s with
  | case1 => exact Nat.le_refl _
  | case2 qcount s hthird ih => exact Nat.le_succ_of_le ih
  | case3 qcount s hthird ih => exact Nat.le_succ_of_le ih
  | case4 => exact Nat.le_refl _

/-- The loop of `parse_next`, with `qcount` and `bcount`: what it writes, and what is behind the argument. -/
def parseNextLoop (qcount bcount : Nat) : List UInt16 → List UInt16 × List UInt16
  | [] => (List.replicate bcount backslash, [])
  | ch :: s =>
    if isBlank ch ∧ qcount = 0 then (List.replicate bcount backslash, ch :: s)
    else if ch = backslash then parseNextLoop qcount (bcount + 1) s
    else if ch = quoteChar then
      let run := quoteRun (if bcount % 2 = 0 then qcount + 1 else qcount) s
      let behind := parseNextLoop (if run.2.1 = 2 then 0 else run.2.1) 0 run.2.2
      (List.replicate (bcount / 2) backslash ++ (if bcount % 2 = 0 then [] else [quoteChar]) ++ run.1 ++ behind.1, behind.2)
    else
      let behind := parseNextLoop qcount 0 s
      (List.replicate bcount backslash ++ ch :: behind.1, behind.2)
termination_by s => s.length
decreasing_by
  · exact Nat.lt_succ_self _
  · exact Nat.lt_succ_of_le (quoteRun_le ..)
  · exact Nat.lt_succ_self _

namespace View

def ofText (cmdline : List UInt16) : View := ⟨cmdline, cmdline, ⟨cmdline.length + 1, []⟩⟩

def remain (v : View) : List UInt16 := v.rest

def done (v : View) : Bool := v.rest.isEmpty

/-- An argument with its terminator; nothing for a write outside the buffer. -/
def finish (v : View) (parsed : List UInt16 × List UInt16) : Option (List UInt16 × View) :=
  (v.buffer.putAll (parsed.1 ++ [0])).map fun buffer =>
    (parsed.1, { v with rest := parsed.2.dropWhile isBlank, buffer := buffer })

/-- `next`. Nothing has set `last_` for an empty command line. -/
def next (v : View) : Option (List UInt16 × View) :=
  if v.cmdline = [] then none
  else if v.buffer.data = [] then v.finish (parseFirstLoop v.rest)
  else if v.done then some ([], v)
  else v.finish (parseNextLoop 0 0 v.rest)

/-- The loop over the iterators. -/
def splitLoop : Nat → View → Option (List (List UInt16) × View)
  | 0, v => if v.done then some ([], v) else none
  | fuel + 1, v =>
    if v.done then some ([], v)
    else v.next.bind fun r => (splitLoop fuel r.2).map fun rest => (r.1 :: rest.1, rest.2)

/-- The views of an iteration over a command line. -/
inductive Reached (cmdline : List UInt16) : View → Prop
  | start : Reached cmdline (ofText cmdline)
  | next {v v' : View} {token : List UInt16} (h : Reached cmdline v) (hnext : v.next = some (token, v')) : Reached cmdline v'

end View

def splitCommandLine (cmdline : List UInt16) : Option (List (List UInt16)) :=
  ((View.ofText cmdline).splitLoop cmdline.length).map (·.1)

/-! ## What is written -/

/-- The units of an argument, and what is behind it and its blanks. -/
structure Split (s units rest : List UInt16) : Prop where
  suffix : rest <:+ s
  shorter : s ≠ [] → rest.length < s.length
  fits : units.length + 1 + rest.length ≤ s.length + if rest = [] then 1 else 0

variable {s units rest : List UInt16} {qcount bcount : Nat}

theorem quoteRun_writes (qcount : Nat) (s : List UInt16) :
    (quoteRun qcount s).1.length + (quoteRun qcount s).2.2.length ≤ s.length ∧ (quoteRun qcount s).2.2 <:+ s := by
  fun_induction quoteRun qcount s with
  | case1 => exact ⟨Nat.le_refl _, List.suffix_rfl⟩
  | case2 qcount s hthird ih =>
    refine ⟨?_, ih.2.trans (List.suffix_cons ..)⟩
    simp only [List.length_cons]
    omega
  | case3 qcount s hthird ih => exact ⟨Nat.le_succ_of_le ih.1, ih.2.trans (List.suffix_cons ..)⟩
  | case4 => exact ⟨by simp, List.suffix_rfl⟩

/-- What stands behind an argument. -/
def AtBlank (rest : List UInt16) : Prop := ∀ ch ∈ rest.head?, isBlank ch

theorem parseNextLoop_writes (qcount bcount : Nat) (s : List UInt16) :
    (parseNextLoop qcount bcount s).1.length + (parseNextLoop qcount bcount s).2.length ≤ bcount + s.length ∧
      (parseNextLoop qcount bcount s).2 <:+ s ∧ AtBlank (parseNextLoop qcount bcount s).2 := by
  fun_induction parseNextLoop qcount bcount s with
  | case1 => exact ⟨by simp, List.suffix_rfl, nofun⟩
  | case2 qcount bcount ch s hblank =>
    refine ⟨by simp, List.suffix_rfl, fun c hc => ?_⟩
    rw [← Option.some_inj.mp hc]
    exact hblank.1
  | case3 qcount bcount s hblank ih =>
    refine ⟨?_, ih.2.1.trans (List.suffix_cons ..), ih.2.2⟩
    rw [List.length_cons]
    omega
  | case4 qcount bcount s run behind hblank hne ih =>
    obtain ⟨hrun, hsuffix⟩ : run.1.length + run.2.2.length ≤ s.length ∧ run.2.2 <:+ s := quoteRun_writes _ s
    obtain ⟨hbehind, hrest, hstop⟩ : behind.1.length + behind.2.length ≤ 0 + run.2.2.length ∧
      behind.2 <:+ run.2.2 ∧ AtBlank behind.2 := ih
    have hquote : (if bcount % 2 = 0 then [] else [quoteChar]).length = bcount % 2 := by
      split_ifs with h
      · exact h.symm
      · rw [List.length_singleton]
        omega
    refine ⟨?_, (hrest.trans hsuffix).trans (List.suffix_cons ..), hstop⟩
    clear_value run behind
    simp only [List.length_append, List.length_replicate, List.length_cons, hquote]
    omega
  | case5 qcount bcount ch s hblank hbackslash hquote behind ih =>
    obtain ⟨hbehind, hrest, hstop⟩ : behind.1.length + behind.2.length ≤ 0 + s.length ∧
      behind.2 <:+ s ∧ AtBlank behind.2 := ih
    refine ⟨?_, hrest.trans (List.suffix_cons ..), hstop⟩
    clear_value behind
    simp only [List.length_append, List.length_replicate, List.length_cons]
    omega

/-- The blanks behind an argument make room for its terminator. -/
theorem AtBlank.skip (h : AtBlank rest) :
    (rest.dropWhile isBlank).length + 1 ≤ rest.length + if rest.dropWhile isBlank = [] then 1 else 0 := by
  rcases rest with _ | ⟨ch, rest⟩
  · exact Nat.le_refl _
  · rw [List.dropWhile_cons_of_pos (h ch rfl)]
    exact Nat.le_trans (Nat.succ_le_succ (List.dropWhile_suffix _).length_le) (Nat.le_add_right _ _)

theorem AtBlank.split (hstop : AtBlank rest) (hsuffix : rest <:+ s) (hlength : units.length + rest.length ≤ s.length) :
    Split s units (rest.dropWhile isBlank) := by
  have hdrop := List.dropWhile_suffix (l := rest) isBlank
  have hskip := hstop.skip
  refine ⟨hdrop.trans hsuffix, fun hne => ?_, by omega⟩
  have hpos := List.length_pos_iff.mpr hne
  rcases Nat.lt_or_ge rest.length s.length with hlt | hge
  · exact Nat.lt_of_le_of_lt hdrop.length_le hlt
  · split_ifs at hskip with hnil
    · rwa [hnil]
    · have := hsuffix.length_le
      omega

theorem split_next (s : List UInt16) : Split s (parseNextLoop 0 0 s).1 ((parseNextLoop 0 0 s).2.dropWhile isBlank) := by
  obtain ⟨hlength, hsuffix, hstop⟩ := parseNextLoop_writes 0 0 s
  rw [Nat.zero_add] at hlength
  exact hstop.split hsuffix hlength

theorem split_first (s : List UInt16) : Split s (parseFirstLoop s).1 ((parseFirstLoop s).2.dropWhile isBlank) := by
  rcases s with _ | ⟨ch, s⟩
  · exact ⟨List.suffix_rfl, fun h => absurd rfl h, Nat.le_refl _⟩
  rw [parseFirstLoop]
  split_ifs with hquote
  · have hparts := congrArg List.length (List.takeWhile_append_dropWhile (p := (· ≠ quoteChar)) (l := s))
    have hskip := List.dropWhile_suffix (l := (s.dropWhile (· ≠ quoteChar)).drop 1) isBlank
    have hle := hskip.length_le
    rw [List.length_append] at hparts
    rw [List.length_drop] at hle
    refine ⟨?_, fun _ => ?_, ?_⟩
    · exact hskip.trans (((List.drop_suffix ..).trans (List.dropWhile_suffix _)).trans (List.suffix_cons ..))
    · dsimp only
      rw [List.length_cons]
      omega
    · dsimp only
      rw [List.length_cons]
      omega
  · refine AtBlank.split (fun c hc => ?_) (List.dropWhile_suffix _) ?_
    · have := List.head?_dropWhile_not (!isBlank ·) (ch :: s)
      rw [Option.mem_def.mp hc] at this
      simpa using this
    · rw [← List.length_append, List.takeWhile_append_dropWhile]

namespace View

variable {v v' : View} {cmdline : List UInt16}

/-- The invariant of a view. -/
structure Bounded (v : View) : Prop where
  capacity : v.buffer.capacity = v.cmdline.length + 1
  suffix : v.rest <:+ v.cmdline
  written : v.buffer.data.length + v.rest.length ≤ v.cmdline.length + if v.rest = [] then 1 else 0
  begun : v.buffer.data = [] → v.rest = v.cmdline

theorem splitLoop_done (h : v.done) (fuel : Nat) : v.splitLoop fuel = some ([], v) := by
  cases fuel <;> exact if_pos h

theorem bounded_ofText (cmdline : List UInt16) : (ofText cmdline).Bounded :=
  ⟨rfl, List.suffix_rfl, by simp [ofText], fun _ => rfl⟩

/-- One call returns what is parsed, and keeps the invariant. -/
theorem Bounded.finish (h : v.Bounded) (hne : v.rest ≠ []) {parsed : List UInt16 × List UInt16}
    (hsplit : Split v.rest parsed.1 (parsed.2.dropWhile isBlank)) :
    ∃ v', v.finish parsed = some (parsed.1, v') ∧ v'.Bounded ∧ v'.cmdline = v.cmdline ∧ v'.buffer.data ≠ [] ∧
      v'.rest = parsed.2.dropWhile isBlank ∧ v'.rest.length < v.rest.length := by
  have hwritten := h.written
  rw [if_neg hne] at hwritten
  have hfits := hsplit.fits
  have hroom : v.buffer.data.length + (parsed.1 ++ [0]).length ≤ v.buffer.capacity := by
    rw [h.capacity, List.length_append, List.length_singleton]
    split_ifs at hfits <;> omega
  refine ⟨{ v with
    rest := parsed.2.dropWhile isBlank
    buffer := { v.buffer with data := v.buffer.data ++ (parsed.1 ++ [0]) } }, ?_, ⟨h.capacity, ?_, ?_, ?_⟩, rfl, ?_, rfl,
    hsplit.shorter hne⟩
  · rw [View.finish, RawBuffer.putAll_of_fits hroom]
    rfl
  · exact hsplit.suffix.trans h.suffix
  · simp only [List.length_append, List.length_singleton]
    split_ifs at hfits ⊢ <;> omega
  · simp
  · simp

theorem Bounded.next (h : v.Bounded) (hne : v.rest ≠ []) :
    ∃ token v', v.next = some (token, v') ∧ v'.Bounded ∧ v'.cmdline = v.cmdline ∧ v'.rest.length < v.rest.length := by
  have hcmdline : v.cmdline ≠ [] := fun h0 => hne (List.suffix_nil.mp (h0 ▸ h.suffix))
  rw [View.next, if_neg hcmdline]
  by_cases hfirst : v.buffer.data = []
  · obtain ⟨v', hv', hb, hc, -, -, hlt⟩ := h.finish hne (split_first v.rest)
    rw [if_pos hfirst]
    exact ⟨_, v', hv', hb, hc, hlt⟩
  · obtain ⟨v', hv', hb, hc, -, -, hlt⟩ := h.finish hne (split_next v.rest)
    rw [if_neg hfirst, if_neg (by rwa [done, List.isEmpty_iff])]
    exact ⟨_, v', hv', hb, hc, hlt⟩

theorem Reached.bounded (h : Reached cmdline v) : v.Bounded ∧ v.cmdline = cmdline := by
  induction h with
  | start => exact ⟨bounded_ofText cmdline, rfl⟩
  | @next v v' token _ hnext ih =>
    by_cases hrest : v.rest = []
    · rw [View.next] at hnext
      split_ifs at hnext with hcmdline hfirst hdone
      · exact absurd ((ih.1.begun hfirst).symm.trans hrest) hcmdline
      · obtain ⟨-, rfl⟩ := Prod.mk.inj (Option.some_inj.mp hnext)
        exact ih
      · exact absurd (List.isEmpty_iff.mpr hrest) hdone
    · obtain ⟨token', w, hw, hb, hc, -⟩ := ih.1.next hrest
      obtain ⟨-, rfl⟩ := Prod.mk.inj (Option.some_inj.mp (hnext.symm.trans hw))
      exact ⟨hb, hc.trans ih.2⟩

/-- The iteration comes to an end. -/
theorem Reached.split (h : Reached cmdline v) {fuel : Nat} (hfuel : v.rest.length ≤ fuel) :
    ∃ tokens v', v.splitLoop fuel = some (tokens, v') ∧ v'.done ∧ Reached cmdline v' := by
  induction fuel generalizing v with
  | zero =>
    have hdone : v.done := List.isEmpty_iff.mpr (List.length_eq_zero_iff.mp (Nat.le_zero.mp hfuel))
    exact ⟨[], v, splitLoop_done hdone _, hdone, h⟩
  | succ fuel ih =>
    rw [splitLoop]
    by_cases hdone : v.done
    · exact ⟨[], v, if_pos hdone, hdone, h⟩
    · have hrest : v.rest ≠ [] := fun h0 => hdone (List.isEmpty_iff.mpr h0)
      obtain ⟨token, v', hnext, -, -, hlt⟩ := h.bounded.1.next hrest
      obtain ⟨tokens, w, hw, hend, hreached⟩ := ih (.next h hnext) (by omega)
      refine ⟨token :: tokens, w, ?_, hend, hreached⟩
      rw [if_neg hdone, hnext]
      simp only [Option.bind_some, hw]
      rfl

end View

/-! ## Quoted arguments -/

/-- A text behind `n` backslashes, with these, where it stands between quotes:
backslashes in front of a quote, or at the end, are doubled, and a quote has one
more in front of it. -/
def escapeFrom : Nat → List UInt16 → List UInt16
  | n, [] => List.replicate (2 * n) backslash
  | n, ch :: s =>
    if ch = backslash then escapeFrom (n + 1) s
    else if ch = quoteChar then List.replicate (2 * n + 1) backslash ++ quoteChar :: escapeFrom 0 s
    else List.replicate n backslash ++ ch :: escapeFrom 0 s

/-- An argument in quotes. -/
def quoteArgument (arg : List UInt16) : List UInt16 := quoteChar :: escapeFrom 0 arg ++ [quoteChar]

/-- Arguments in quotes, with a blank in front of each. -/
def argumentsText (args : List (List UInt16)) : List UInt16 := args.flatMap fun arg => 0x20 :: quoteArgument arg

variable {arg text : List UInt16}

theorem parseNextLoop_backslashes (hq : qcount ≠ 0) (n : Nat) (s : List UInt16) :
    parseNextLoop qcount bcount (List.replicate n backslash ++ s) = parseNextLoop qcount (bcount + n) s := by
  induction n generalizing bcount with
  | zero => rfl
  | succ n ih =>
    rw [List.replicate_succ, List.cons_append, parseNextLoop, if_neg (fun h => hq h.2), if_pos rfl, ih,
      Nat.add_right_comm, Nat.add_assoc]

/-- Behind the last quote, or in front of anything else than a quote. -/
theorem quoteRun_stop (h : ∀ ch ∈ s.head?, ch ≠ quoteChar) : quoteRun qcount s = ([], qcount, s) := by
  rcases s with _ | ⟨ch, s⟩
  · rfl
  · rw [quoteRun, if_neg (h ch rfl)]

theorem AtBlank.stop (h : AtBlank rest) : ∀ ch ∈ rest.head?, ch ≠ quoteChar := by
  rintro ch hch rfl
  exact absurd (h _ hch) (by decide)

theorem parseNextLoop_atBlank (h : AtBlank rest) : parseNextLoop 0 0 rest = ([], rest) := by
  rcases rest with _ | ⟨ch, rest⟩
  · rw [parseNextLoop]
    rfl
  · rw [parseNextLoop, if_pos ⟨h ch rfl, rfl⟩]
    rfl

theorem escapeFrom_succ_head (n : Nat) (s rest : List UInt16) :
    ∀ c ∈ (escapeFrom (n + 1) s ++ rest).head?, c = backslash := by
  have hhead (k : Nat) (t : List UInt16) : ∀ c ∈ (List.replicate (k + 1) backslash ++ t).head?, c = backslash := by
    rintro c hc
    exact (Option.some_inj.mp hc).symm
  induction s generalizing n with
  | nil => exact hhead (2 * n + 1) rest
  | cons ch s ih =>
    rw [escapeFrom]
    split_ifs
    · exact ih (n + 1)
    · rw [List.append_assoc]
      exact hhead (2 * (n + 1)) _
    · rw [List.append_assoc]
      exact hhead n _

/-- The first unit of an escaped text that is not empty is no quote. -/
theorem escapeFrom_head (ch : UInt16) (s rest : List UInt16) :
    ∀ c ∈ (escapeFrom 0 (ch :: s) ++ rest).head?, c ≠ quoteChar := by
  intro c hc
  rw [escapeFrom] at hc
  split_ifs at hc with hbackslash hquote
  · rw [escapeFrom_succ_head 0 s rest c hc]
    decide
  · rw [← Option.some_inj.mp hc]
    decide
  · rw [← Option.some_inj.mp hc]
    exact hquote

/-- The closing quote. -/
theorem parseNextLoop_close (h : AtBlank rest) (n : Nat) :
    parseNextLoop 1 (2 * n) (quoteChar :: rest) = (List.replicate n backslash, rest) := by
  rw [parseNextLoop, if_neg (by decide), if_neg (by decide), if_pos rfl]
  simp only [Nat.mul_mod_right, if_true, quoteRun_stop h.stop, parseNextLoop_atBlank h, List.append_nil,
    Nat.mul_div_cancel_left n (show 0 < 2 by decide)]

/-- Behind a quote that opens the text or belongs to it. -/
theorem quoteRun_escaped (h : AtBlank rest)
    (hescaped : parseNextLoop 1 0 (escapeFrom 0 arg ++ quoteChar :: rest) = (arg, rest)) :
    ∃ qcount behind, quoteRun 1 (escapeFrom 0 arg ++ quoteChar :: rest) = ([], qcount, behind) ∧
      parseNextLoop (if qcount = 2 then 0 else qcount) 0 behind = (arg, rest) := by
  rcases arg with _ | ⟨ch, arg⟩
  · refine ⟨2, rest, ?_, parseNextLoop_atBlank h⟩
    change quoteRun 1 (quoteChar :: rest) = _
    rw [quoteRun, if_pos rfl, if_neg (by decide), quoteRun_stop h.stop]
  · exact ⟨1, _, quoteRun_stop (escapeFrom_head ch arg _), hescaped⟩

/-- Between quotes. -/
theorem parseNextLoop_escaped (h : AtBlank rest) (n : Nat) (arg : List UInt16) :
    parseNextLoop 1 0 (escapeFrom n arg ++ quoteChar :: rest) = (List.replicate n backslash ++ arg, rest) := by
  induction arg generalizing n with
  | nil =>
    rw [escapeFrom, parseNextLoop_backslashes (by decide), Nat.zero_add, parseNextLoop_close h, List.append_nil]
  | cons ch arg ih =>
    rw [escapeFrom]
    split_ifs with hbackslash hquote
    · rw [ih, hbackslash, List.replicate_succ', List.append_assoc]
      rfl
    · obtain ⟨qcount, behind, hrun, hbehind⟩ := quoteRun_escaped h (ih 0)
      have hodd : ¬ (2 * n + 1) % 2 = 0 := by omega
      have hhalf : (2 * n + 1) / 2 = n := by omega
      rw [List.append_assoc, parseNextLoop_backslashes (by decide), Nat.zero_add, List.cons_append, parseNextLoop,
        if_neg (by decide), if_neg (by decide), if_pos rfl]
      simp only [if_neg hodd, hhalf, hrun, hbehind, List.append_nil, List.append_assoc, hquote]
      rfl
    · rw [List.append_assoc, parseNextLoop_backslashes (by decide), Nat.zero_add, List.cons_append, parseNextLoop,
        if_neg (fun h => absurd h.2 (by decide)), if_neg hbackslash, if_neg hquote]
      simp only [ih]
      rfl

/-- An argument in quotes. -/
theorem parseNextLoop_quoted (h : AtBlank rest) (arg : List UInt16) :
    parseNextLoop 0 0 (quoteArgument arg ++ rest) = (arg, rest) := by
  obtain ⟨qcount, behind, hrun, hbehind⟩ := quoteRun_escaped h (parseNextLoop_escaped h 0 arg)
  rw [quoteArgument, List.append_assoc, List.cons_append, parseNextLoop, if_neg (by decide), if_neg (by decide), if_pos rfl]
  change (let run := quoteRun 1 (escapeFrom 0 arg ++ quoteChar :: rest)
    let behind := parseNextLoop (if run.2.1 = 2 then 0 else run.2.1) 0 run.2.2
    (run.1 ++ behind.1, behind.2)) = _
  simp only [hrun, hbehind]
  rfl

/-! ## The whole command line -/

/-- The program of a command line: a path in quotes, or one without blanks. -/
inductive ProgramText (path : List UInt16) : List UInt16 → Prop
  | quoted : ProgramText path (quoteChar :: path ++ [quoteChar])
  | plain (hne : path ≠ []) (hblank : ∀ ch ∈ path, ¬ isBlank ch) : ProgramText path path

theorem atBlank_argumentsText (args : List (List UInt16)) : AtBlank (argumentsText args) := by
  rcases args with _ | ⟨arg, args⟩
  · nofun
  · rintro ch hch
    rw [← Option.some_inj.mp hch]
    decide

theorem argumentsText_skip (arg : List UInt16) (args : List (List UInt16)) :
    (argumentsText (arg :: args)).dropWhile isBlank = quoteArgument arg ++ argumentsText args := by
  rw [argumentsText, List.flatMap_cons, List.cons_append, List.dropWhile_cons_of_pos (by decide)]
  exact List.dropWhile_cons_of_neg (by decide)

theorem parseFirstLoop_program {path : List UInt16} (hpath : quoteChar ∉ path) (h : ProgramText path text)
    (args : List (List UInt16)) : parseFirstLoop (text ++ argumentsText args) = (path, argumentsText args) := by
  have hspan (p : UInt16 → Bool) (rest : List UInt16) (hall : ∀ ch ∈ path, p ch) (hstop : ∀ ch ∈ rest.head?, ¬ p ch) :
      (path ++ rest).takeWhile p = path ∧ (path ++ rest).dropWhile p = rest := by
    rw [List.takeWhile_append_of_pos hall, List.dropWhile_append_of_pos hall]
    rcases rest with _ | ⟨ch, rest⟩
    · exact ⟨List.append_nil _, rfl⟩
    · rw [List.takeWhile_cons_of_neg (hstop ch rfl), List.dropWhile_cons_of_neg (hstop ch rfl), List.append_nil]
      exact ⟨rfl, rfl⟩
  cases h with
  | quoted =>
    obtain ⟨htake, hdrop⟩ := hspan (· ≠ quoteChar) (quoteChar :: argumentsText args)
      (fun ch hch => decide_eq_true fun h0 => hpath (h0 ▸ hch)) (fun ch hch => by simp [← Option.some_inj.mp hch])
    rw [List.append_assoc, List.cons_append, parseFirstLoop, if_pos rfl, List.singleton_append, htake, hdrop]
    rfl
  | plain hne hblank =>
    obtain ⟨htake, hdrop⟩ := hspan (!isBlank ·) (argumentsText args) (fun ch hch => by simpa using hblank ch hch)
      (fun ch hch => by simpa using atBlank_argumentsText args ch hch)
    rcases text with _ | ⟨ch, text⟩
    · exact absurd rfl hne
    have hquote : ch ≠ quoteChar := fun h0 => hpath (h0 ▸ List.mem_cons_self)
    rw [List.cons_append, parseFirstLoop, if_neg hquote, ← List.cons_append, htake, hdrop]

namespace View

variable {v : View}

/-- The arguments behind the first one. -/
theorem Bounded.splitLoop_arguments {args : List (List UInt16)} {fuel : Nat} (h : v.Bounded) (hfirst : v.buffer.data ≠ [])
    (hrest : v.rest = (argumentsText args).dropWhile isBlank) (hfuel : v.rest.length ≤ fuel) :
    ∃ v', v.splitLoop fuel = some (args, v') := by
  induction args generalizing v fuel with
  | nil =>
    exact ⟨v, splitLoop_done (List.isEmpty_iff.mpr hrest) _⟩
  | cons arg args ih =>
    rw [argumentsText_skip] at hrest
    have hne : v.rest ≠ [] := by simp [hrest, quoteArgument]
    have hcmdline : v.cmdline ≠ [] := fun h0 => hne (List.suffix_nil.mp (h0 ▸ h.suffix))
    have hdone : ¬ v.done := fun h0 => hne (List.isEmpty_iff.mp h0)
    obtain ⟨v', hv', hb, -, hdata, hrest', hlt⟩ := h.finish hne (split_next v.rest)
    rw [hrest, parseNextLoop_quoted (atBlank_argumentsText args)] at hrest' hv'
    have hpos := List.length_pos_iff.mpr hne
    obtain ⟨fuel, rfl⟩ : ∃ n, fuel = n + 1 := ⟨fuel - 1, by omega⟩
    obtain ⟨w, hw⟩ := @ih v' fuel hb hdata hrest' (by omega)
    refine ⟨w, ?_⟩
    rw [splitLoop, if_neg hdone, View.next, if_neg hcmdline, if_neg hfirst, if_neg hdone, hrest,
      parseNextLoop_quoted (atBlank_argumentsText args), hv']
    simp only [Option.bind_some, hw]
    rfl

end View

/-- The arguments that were quoted come back. -/
theorem splitCommandLine_quoted {path cmdline : List UInt16} {args : List (List UInt16)} (hne : cmdline ≠ [])
    (hfirst : parseFirstLoop cmdline = (path, argumentsText args)) : splitCommandLine cmdline = some (path :: args) := by
  obtain ⟨v, hv, hb, -, hdata, hrest, hlt⟩ := (View.bounded_ofText cmdline).finish hne (split_first cmdline)
  rw [hfirst] at hv hrest
  have hnext : (View.ofText cmdline).next = some (path, v) := by
    rw [← hv, ← hfirst]
    exact (if_neg hne).trans (if_pos rfl)
  have hdone : ¬ (View.ofText cmdline).done := fun h0 => hne (List.isEmpty_iff.mp h0)
  obtain ⟨n, hn⟩ : ∃ n, cmdline.length = n + 1 := ⟨_, (Nat.sub_add_cancel (List.length_pos_iff.mpr hne)).symm⟩
  have hfuel : v.rest.length ≤ n := by
    change v.rest.length < cmdline.length at hlt
    omega
  obtain ⟨w, hw⟩ := hb.splitLoop_arguments hdata hrest hfuel
  rw [splitCommandLine, hn, View.splitLoop, if_neg hdone, hnext]
  simp only [Option.bind_some, hw]
  rfl

theorem ProgramText.ne_nil {path : List UInt16} (h : ProgramText path text) : text ≠ [] := by
  cases h with
  | quoted => simp
  | plain hne _ => exact hne

/-- The iteration over a command line ends; in each view of it what remains is
the end of the command line, and no more than its length and one unit is written;
and quoted arguments come back. -/
theorem command_line_split (cmdline : List UInt16) :
    (∀ v, View.Reached cmdline v → v.remain <:+ cmdline ∧ v.buffer.data.length ≤ cmdline.length + 1) ∧
      (∃ tokens v, (View.ofText cmdline).splitLoop cmdline.length = some (tokens, v) ∧ v.done ∧ View.Reached cmdline v) ∧
      ∀ path text args, quoteChar ∉ path → ProgramText path text → cmdline = text ++ argumentsText args →
        splitCommandLine cmdline = some (path :: args) := by
  refine ⟨fun v hv => ?_, View.Reached.split .start (Nat.le_refl _), ?_⟩
  · obtain ⟨hb, rfl⟩ := hv.bounded
    have hwritten := hb.written
    refine ⟨hb.suffix, ?_⟩
    split_ifs at hwritten <;> omega
  · rintro path text args hpath htext rfl
    exact splitCommandLine_quoted (List.append_ne_nil_of_left_ne_nil htext.ne_nil _) (parseFirstLoop_program hpath htext args)

/-- `"a b" "\"" ""`: a path with a blank, a quote and an empty argument. -/
theorem command_line_split_quote :
    splitCommandLine [0x22, 0x61, 0x20, 0x62, 0x22, 0x20, 0x22, 0x5C, 0x22, 0x22, 0x20, 0x22, 0x22] =
      some [[0x61, 0x20, 0x62], [0x22], []] :=
  (command_line_split _).2.2 [0x61, 0x20, 0x62] _ [[0x22], []] (by decide) .quoted (by decide)

end Corehost.CommandLine
