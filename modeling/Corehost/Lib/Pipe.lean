import Corehost.Lib.Runs
import Mathlib.Data.List.Basic
import Mathlib.Tactic.Common

/-!
# A poller on a byte pipe

One side writes whole messages into a pipe. The other one polls: while there is
something in the pipe it reads one message, by a program of reads of a fixed
length, and handles it. A read takes what is there, up to the length that it
asks for, and waits when there is nothing. A message that is not one ends the
polls.

* `Reads`, `Consumes`: such programs, and the bytes that one needs to the end;
* `Wire`: messages, their bytes and a program that consumes them;
* `Poller.step`: one write, or one call on the pipe of the other side;
* `Poller.inOrder`: in any order of the steps every message is handled once, in
  the order of the writes, and no read is cut short or waits;
* `Poller.drains_iff`: what a poll accepts is a sequence of messages.
-/

namespace Corehost.Lib

/-! ## Programs -/

/-- A program that reads a pipe. `next` gets the bytes of the read, which are
fewer than `n` when the pipe holds fewer. -/
inductive Reads (β α : Type) where
  | done (a : α)
  | read (n : Nat) (next : List β → Reads β α)

variable {β α μ σ : Type}

/-- `c` is what the program reads, and `a` what it ends with. Every read is of
the length that it asks for. -/
def Consumes : Reads β α → List β → α → Prop
  | .done b, c, a => c = [] ∧ b = a
  | .read n next, c, a => 0 < n ∧ n ≤ c.length ∧ Consumes (next (c.take n)) (c.drop n) a

theorem consumes_read {n : Nat} {next : List β → Reads β α} {front rest : List β} {a : α} (hn : front.length = n) (hpos : 0 < n)
    (h : Consumes (next front) rest a) : Consumes (.read n next) (front ++ rest) a := by
  subst hn
  refine ⟨hpos, by simp, ?_⟩
  rwa [List.take_left, List.drop_left]

theorem consumes_done (a : α) : Consumes (.done a : Reads β α) [] a := ⟨rfl, rfl⟩

/-- A last read. -/
theorem consumes_last {n : Nat} {next : List β → Reads β α} {front : List β} {a : α} (hn : front.length = n) (hpos : 0 < n)
    (h : Consumes (next front) [] a) : Consumes (.read n next) front a := by
  simpa using consumes_read hn hpos h

/-- A read that looks whether it was cut short. -/
theorem consumes_exact {n : Nat} {short : Reads β α} {p : List β → Reads β α} {c : List β} {a : α} :
    Consumes (.read n fun bs => if bs.length ≠ n then short else p bs) c a ↔
      0 < n ∧ n ≤ c.length ∧ Consumes (p (c.take n)) (c.drop n) a := by
  refine and_congr_right fun _ => and_congr_right fun hle => ?_
  dsimp only
  rw [if_neg (by rw [List.length_take]; omega)]

/-- Nothing behind the bytes changes a read. -/
theorem Consumes.read_append {n : Nat} {next : List β → Reads β α} {c : List β} {a : α} (h : Consumes (.read n next) c a)
    (more : List β) :
    c ≠ [] ∧ (c ++ more).drop n = c.drop n ++ more ∧ Consumes (next ((c ++ more).take n)) (c.drop n) a := by
  obtain ⟨hpos, hle, hnext⟩ := h
  refine ⟨fun hnil => ?_, List.drop_append_of_le_length hle, ?_⟩
  · rw [hnil, List.length_nil] at hle
    omega
  · rwa [List.take_append_of_le_length hle]

/-- Messages on a pipe, with the program that reads one of them. It ends with
`none` when what it has read is no message. -/
structure Wire (β μ α : Type) where
  encode : μ → List β
  decode : μ → α
  program : Reads β (Option α)
  consumes (m : μ) : Consumes program (encode m) (some (decode m))
  nonempty (m : μ) : encode m ≠ []

/-! ## The poller -/

/-- Where the poller is. -/
inductive PollerAt (β α : Type) where
  /-- The last poll has returned whether the pipe is lost. -/
  | returned (lost : Bool)
  /-- A poll looks whether there is something in the pipe. -/
  | peek
  /-- A poll reads a message. -/
  | within (p : Reads β (Option α))
  /-- A poll has thrown. -/
  | thrown

/-- A pipe with its two sides. `sent`, `handled` and `seen` are the messages that
were written, the ones that were handled and the ones that were written when
the last poll returned. -/
structure Poller (β μ α σ : Type) where
  pipe : List β := []
  writer : Bool := true
  pc : PollerAt β α := .returned false
  state : σ
  sent : List μ := []
  handled : List α := []
  seen : List μ := []

inductive PollerEvent (μ υ : Type) where
  /-- A message is written, in one write. -/
  | write (m : μ)
  /-- The writing side is closed. -/
  | close
  | poll
  /-- The next call of the poll on the pipe. -/
  | advance
  /-- What was handled is used, between two polls. -/
  | use (u : υ)

namespace Poller

variable {υ : Type} (w : Wire β μ α) (handle : σ → α → σ) (use : σ → υ → σ)

/-- The next call of a poll. A read of an empty pipe waits for the writer, so it is no step. -/
def advance (program : Reads β (Option α)) (s : Poller β μ α σ) : Option (Poller β μ α σ) :=
  match s.pc with
  | .returned _ | .thrown => none
  | .peek =>
    if s.pipe.isEmpty then some { s with pc := .returned !s.writer, seen := s.sent }
    else some { s with pc := .within program }
  | .within (.read n next) =>
    if s.pipe.isEmpty then
      if s.writer then none else some { s with pc := .returned true, seen := s.sent }
    else some { s with pipe := s.pipe.drop n, pc := .within (next (s.pipe.take n)) }
  | .within (.done (some a)) => some { s with state := handle s.state a, pc := .peek, handled := s.handled ++ [a] }
  | .within (.done none) => some { s with pc := .thrown }

def step (s : Poller β μ α σ) : PollerEvent μ υ → Option (Poller β μ α σ)
  | .write m => if s.writer then some { s with pipe := s.pipe ++ w.encode m, sent := s.sent ++ [m] } else none
  | .close => some { s with writer := false }
  | .poll =>
    match s.pc with
    | .returned _ => some { s with pc := .peek }
    | _ => none
  | .advance => s.advance handle w.program
  | .use u =>
    match s.pc with
    | .returned _ => some { s with state := use s.state u }
    | _ => none

/-- A read waits for the writer. -/
def Waits (s : Poller β μ α σ) : Prop := ∃ n next, s.pc = .within (.read n next) ∧ s.pipe = []

/-- What is left in the pipe: the rest of the message that is read, if one is, and whole messages. -/
structure Queued (s : Poller β μ α σ) (done queue : List μ) : Prop where
  sent : s.sent = done ++ queue
  handled : s.handled = done.map w.decode
  rest : match s.pc with
    | .thrown => False
    | .within p => ∃ m rest tail, queue = m :: tail ∧ Consumes p rest (some (w.decode m)) ∧ s.pipe = rest ++ tail.flatMap w.encode
    | _ => s.pipe = queue.flatMap w.encode
  seen : ∀ lost, s.pc = .returned lost → s.seen = done ∧ (lost = true → s.writer = false ∧ queue = [])

/-- `done` are the messages that were handled, each one once and in the order of
the writes. A poll that returns has handled all that was written, and no read
waits for the writer. -/
structure InOrder (s : Poller β μ α σ) (done : List μ) : Prop where
  order : done <+: s.sent
  handled : s.handled = done.map w.decode
  sound : s.pc ≠ .thrown
  ready : ¬ s.Waits
  polled : ∀ lost, s.pc = .returned lost → done = s.seen
  lost : s.pc = .returned true → done = s.sent

variable {w} {handle} {use} {s s' : Poller β μ α σ} {done queue : List μ}

theorem Queued.inOrder (h : s.Queued w done queue) : s.InOrder w done := by
  have hrest := h.rest
  refine ⟨⟨queue, h.sent.symm⟩, h.handled, fun hpc => ?_, ?_, fun lost hpc => (h.seen lost hpc).1.symm, fun hpc => ?_⟩
  · rwa [hpc] at hrest
  · rintro ⟨n, next, hpc, hnil⟩
    rw [hpc] at hrest
    obtain ⟨m, rest, tail, -, hcons, hpipe⟩ := hrest
    rw [hnil] at hpipe
    exact (hcons.read_append []).1 (List.append_eq_nil_iff.mp hpipe.symm).1
  · rw [h.sent, ((h.seen true hpc).2 rfl).2, List.append_nil]

/-- A message is put behind the others, whatever the poll is doing. -/
theorem Queued.write (h : s.Queued w done queue) (hw : s.writer = true) (m : μ) :
    Queued w { s with pipe := s.pipe ++ w.encode m, sent := s.sent ++ [m] } done (queue ++ [m]) := by
  refine ⟨by simp [h.sent], h.handled, ?_, fun lost hpc => ⟨(h.seen lost hpc).1, fun hlost => ?_⟩⟩
  · have hrest := h.rest
    dsimp only
    cases hpc : s.pc with
    | returned lost => simp_all
    | peek => simp_all
    | thrown => simp_all
    | within p =>
      rw [hpc] at hrest
      obtain ⟨m', rest, tail, hqueue, hcons, hpipe⟩ := hrest
      exact ⟨m', rest, tail ++ [m], by rw [hqueue, List.cons_append], hcons, by simp [hpipe]⟩
  · have := ((h.seen lost hpc).2 hlost).1
    rw [hw] at this
    exact absurd this (by decide)

theorem flatMap_encode_eq_nil (w : Wire β μ α) {queue : List μ} (h : queue.flatMap w.encode = []) : queue = [] := by
  cases queue with
  | nil => rfl
  | cons m tail =>
    rw [List.flatMap_cons, List.append_eq_nil_iff] at h
    exact absurd h.1 (w.nonempty m)

/-- A step of the poll goes on in the message that it reads, or begins the next
one. When it handles one, that is the next one. -/
theorem Queued.advance (h : s.Queued w done queue) (hstep : s.advance handle w.program = some s') :
    (s'.state = s.state ∧ s'.Queued w done queue) ∨
      ∃ m tail, queue = m :: tail ∧ s'.state = handle s.state (w.decode m) ∧ s'.Queued w (done ++ [m]) tail := by
  obtain ⟨hsent, hhandled, hrest, hseen⟩ := h
  unfold Poller.advance at hstep
  cases hpc : s.pc with
  | returned lost => simp [hpc] at hstep
  | thrown => simp [hpc] at hstep
  | peek =>
    rw [hpc] at hrest hstep
    dsimp only at hrest hstep
    by_cases hnil : s.pipe = []
    · rw [hnil, List.isEmpty_nil, if_pos rfl, Option.some_inj] at hstep
      have hqueue : queue = [] := flatMap_encode_eq_nil w (hrest.symm.trans hnil)
      subst hstep hqueue
      refine .inl ⟨rfl, hsent, hhandled, rfl, fun lost hlost => ⟨by simpa using hsent, fun htrue => ⟨?_, rfl⟩⟩⟩
      have : (!s.writer) = lost := by simpa using hlost
      simpa [htrue] using this
    · rw [if_neg (by simpa using hnil), Option.some_inj] at hstep
      subst hstep
      cases queue with
      | nil => exact absurd hrest hnil
      | cons m tail =>
        exact .inl ⟨rfl, hsent, hhandled, ⟨m, w.encode m, tail, rfl, w.consumes m, by rw [hrest, List.flatMap_cons]⟩,
          fun lost hlost => by simp at hlost⟩
  | within p =>
    rw [hpc] at hrest hstep
    obtain ⟨m, rest, tail, hqueue, hcons, hpipe⟩ := hrest
    cases p with
    | done a =>
      obtain ⟨hnil, ha⟩ := hcons
      subst ha
      simp only [Option.some_inj] at hstep
      subst hstep
      exact .inr ⟨m, tail, hqueue, rfl, by rw [hsent, hqueue]; simp, by simp [hhandled], by simp [hpipe, hnil],
        fun lost hlost => by simp at hlost⟩
    | read n next =>
      obtain ⟨hne, hdrop, hnext⟩ := hcons.read_append (tail.flatMap w.encode)
      have hpipe' : s.pipe.isEmpty = false := by
        rw [hpipe]
        simpa using fun h => absurd h hne
      simp only [hpipe', Bool.false_eq_true, if_false, Option.some_inj] at hstep
      subst hstep
      refine .inl ⟨rfl, hsent, hhandled, ⟨m, rest.drop n, tail, hqueue, ?_, ?_⟩, fun lost hlost => by simp at hlost⟩
      · rw [hpipe]
        exact hnext
      · dsimp only
        rw [hpipe, hdrop]

theorem Queued.poll {lost : Bool} (h : s.Queued w done queue) (hpc : s.pc = .returned lost) :
    Queued w { s with pc := .peek } done queue := by
  have hrest := h.rest
  rw [hpc] at hrest
  exact ⟨h.sent, h.handled, hrest, fun lost hlost => by simp at hlost⟩

/-- What was handled says what the state is: a step keeps that when handling the
next message does, and every use. -/
theorem Queued.step {J : List μ → σ → Prop} (hhandle : ∀ ms m st, J ms st → J (ms ++ [m]) (handle st (w.decode m)))
    (huse : ∀ ms st u, J ms st → J ms (use st u)) {e : PollerEvent μ υ} (h : s.Queued w done queue) (hj : J done s.state)
    (hstep : s.step w handle use e = some s') : ∃ done' queue', s'.Queued w done' queue' ∧ J done' s'.state := by
  cases e with
  | write m =>
    by_cases hw : s.writer = true
    · simp only [Poller.step, hw, if_true, Option.some_inj] at hstep
      subst hstep
      rw [← hw]
      exact ⟨_, _, h.write hw m, hj⟩
    · simp [Poller.step, hw] at hstep
  | close =>
    simp only [Poller.step, Option.some_inj] at hstep
    subst hstep
    exact ⟨done, queue, ⟨h.sent, h.handled, h.rest, fun lost hpc =>
      ⟨(h.seen lost hpc).1, fun hlost => ⟨rfl, ((h.seen lost hpc).2 hlost).2⟩⟩⟩, hj⟩
  | poll =>
    cases hpc : s.pc with
    | returned lost =>
      simp only [Poller.step, hpc, Option.some_inj] at hstep
      subst hstep
      exact ⟨done, queue, h.poll hpc, hj⟩
    | peek => simp [Poller.step, hpc] at hstep
    | within p => simp [Poller.step, hpc] at hstep
    | thrown => simp [Poller.step, hpc] at hstep
  | advance =>
    rcases h.advance hstep with ⟨hst, h'⟩ | ⟨m, tail, -, hst, h'⟩
    · exact ⟨done, queue, h', by rwa [hst]⟩
    · exact ⟨done ++ [m], tail, h', by rw [hst]; exact hhandle done m s.state hj⟩
  | use u =>
    cases hpc : s.pc with
    | returned lost =>
      have hrest := h.rest
      simp only [Poller.step, hpc, Option.some_inj] at hstep hrest
      subst hstep
      exact ⟨done, queue, ⟨h.sent, h.handled, hrest, fun lost' hlost => h.seen lost' (hpc.trans hlost)⟩, huse done s.state u hj⟩
    | peek => simp [Poller.step, hpc] at hstep
    | within p => simp [Poller.step, hpc] at hstep
    | thrown => simp [Poller.step, hpc] at hstep

variable (w) in
theorem queued_init (st : σ) : Queued w ({ state := st } : Poller β μ α σ) [] [] :=
  ⟨rfl, rfl, rfl, fun _ hpc => ⟨rfl, fun hlost => absurd (hpc.trans (congrArg PollerAt.returned hlost)) (by simp)⟩⟩

/-- In any order of the steps every message is handled once and in order, and the
state is what the handled messages and the uses make of it. -/
theorem everyState_inOrder {J : List μ → σ → Prop} (hhandle : ∀ ms m st, J ms st → J (ms ++ [m]) (handle st (w.decode m)))
    (huse : ∀ ms st u, J ms st → J ms (use st u)) {st : σ} (hst : J [] st) (events : List (PollerEvent μ υ)) :
    EveryState (Poller.step w handle use) (fun s => ∃ done, s.InOrder w done ∧ J done s.state) { state := st } events :=
  @everyState_of_invariant _ _ _ (fun s => ∃ done queue, s.Queued w done queue ∧ J done s.state) _
    (fun _ ⟨done, _, h, hj⟩ => ⟨done, h.inOrder, hj⟩) (fun _ _ _ ⟨_, _, h, hj⟩ hstep => h.step hhandle huse hj hstep)
    events _ ⟨[], [], queued_init w st, hst⟩

/-! ## What a poll accepts -/

/-- A read that is cut short is rejected. -/
def Strict : Reads β (Option α) → Prop
  | .done _ => True
  | .read n next => 0 < n ∧ (∀ bs : List β, bs.length < n → next bs = .done none) ∧ ∀ bs : List β, bs.length = n → Strict (next bs)

theorem strict_exact {n : Nat} {p : List β → Reads β (Option α)} (hn : 0 < n) (h : ∀ bs : List β, bs.length = n → Strict (p bs)) :
    Strict (.read n fun bs => if bs.length ≠ n then .done none else p bs) := by
  refine ⟨hn, fun bs hbs => if_pos (by omega), fun bs hbs => ?_⟩
  dsimp only
  rw [if_neg (not_not.mpr hbs)]
  exact h bs hbs

/-- The bytes are messages, one after the other, and these are their values. -/
inductive Frames (program : Reads β (Option α)) : List β → List α → Prop where
  | nil : Frames program [] []
  | cons {front rest : List β} {a : α} {as : List α} (hne : front ≠ []) (hfront : Consumes program front (some a))
      (hrest : Frames program rest as) : Frames program (front ++ rest) (a :: as)

variable (handle) in
/-- The next `n` calls of a poll. -/
def advances (program : Reads β (Option α)) : Nat → Poller β μ α σ → Option (Poller β μ α σ)
  | 0, s => some s
  | n + 1, s => (s.advance handle program).bind (advances program n)

variable (handle) in
/-- A poll of these values that has found nothing more. -/
def drained (s : Poller β μ α σ) (as : List α) : Poller β μ α σ :=
  { s with pipe := [], pc := .returned false, state := as.foldl handle s.state, handled := s.handled ++ as, seen := s.sent }

theorem advances_add {program : Reads β (Option α)} (j : Nat) : ∀ {i : Nat} {s₁ s₂ : Poller β μ α σ},
    s₁.advances handle program i = some s₂ → s₁.advances handle program (i + j) = s₂.advances handle program j
  | 0, s₁, s₂, h => by
    rw [advances, Option.some_inj] at h
    rw [Nat.zero_add, h]
  | i + 1, s₁, s₂, h => by
    rw [advances] at h
    obtain ⟨s₃, h3, h4⟩ := Option.bind_eq_some_iff.mp h
    rw [Nat.succ_add, advances, h3, Option.bind_some]
    exact advances_add j h4

variable (handle) in
/-- The reads of a message that is in the pipe. -/
theorem advances_consumes (program : Reads β (Option α)) :
    ∀ {p : Reads β (Option α)} {front rest : List β} {a : α} {s : Poller β μ α σ},
    Consumes p front (some a) → s.pc = .within p → s.pipe = front ++ rest →
    ∃ n, s.advances handle program (n + 1) =
      some { s with pipe := rest, pc := .peek, state := handle s.state a, handled := s.handled ++ [a] }
  | .done b, front, rest, a, s, h, hpc, hpipe => by
    obtain ⟨hnil, hb⟩ := h
    subst hnil hb
    refine ⟨0, ?_⟩
    rw [advances, advance, hpc]
    dsimp only
    rw [Option.bind_some, advances, hpipe, List.nil_append]
  | .read k next, front, rest, a, s, h, hpc, hpipe => by
    obtain ⟨hne, hdrop, hnext⟩ := h.read_append rest
    obtain ⟨n, hn⟩ := advances_consumes program (s := { s with pipe := s.pipe.drop k, pc := .within (next (s.pipe.take k)) })
      (by rw [hpipe]; exact hnext) rfl (show s.pipe.drop k = front.drop k ++ rest by rw [hpipe]; exact hdrop)
    have hfull : s.pipe.isEmpty = false := by
      rw [hpipe]
      simpa using fun hnil => absurd hnil hne
    refine ⟨n + 1, ?_⟩
    rw [advances, advance, hpc]
    simp only [hfull, Bool.false_eq_true, if_false, Option.bind_some]
    exact hn

/-- A poll that returns has read the message that it was reading to its end. -/
theorem consumes_of_advances (program : Reads β (Option α)) {s' : Poller β μ α σ} (hs' : s'.pc = .returned false) :
    ∀ {p : Reads β (Option α)} {n : Nat} {s : Poller β μ α σ}, Strict p → s.pc = .within p → s.writer = true →
    s.advances handle program n = some s' →
    ∃ k front rest a, k < n ∧ s.pipe = front ++ rest ∧ Consumes p front (some a) ∧
      advances handle program k { s with pipe := rest, pc := .peek, state := handle s.state a, handled := s.handled ++ [a] } = some s'
  | p, 0, s, _, hpc, _, h => by
    rw [advances, Option.some_inj] at h
    rw [h, hs'] at hpc
    simp at hpc
  | .done none, n + 1, s, _, hpc, _, h => by
    rw [advances, advance, hpc] at h
    dsimp only at h
    rw [Option.bind_some] at h
    cases n with
    | zero =>
      rw [advances, Option.some_inj] at h
      rw [← h] at hs'
      simp at hs'
    | succ n => simp [advances, advance] at h
  | .done (some a), n + 1, s, _, hpc, _, h => by
    rw [advances, advance, hpc] at h
    exact ⟨n, [], s.pipe, a, n.lt_succ_self, rfl, ⟨rfl, rfl⟩, h⟩
  | .read k next, n + 1, s, hp, hpc, hw, h => by
    obtain ⟨hpos, hshort, hnext⟩ := hp
    rw [advances, advance, hpc] at h
    dsimp only at h
    by_cases hnil : s.pipe = []
    · simp [hnil, hw] at h
    rw [if_neg (by simpa using hnil), Option.bind_some] at h
    -- A short read ends the polls, so there was enough in the pipe.
    by_cases hlen : s.pipe.length < k
    · obtain ⟨_, _, _, _, _, _, hdone, -⟩ := consumes_of_advances program hs' (p := .done none)
        (s := { s with pipe := s.pipe.drop k, pc := .within (.done none) }) trivial rfl hw
        (by rwa [hshort _ (by rw [List.length_take]; omega)] at h)
      exact absurd hdone.2 (by simp)
    · have htake : (s.pipe.take k).length = k := by rw [List.length_take]; omega
      obtain ⟨j, front, rest, a, hj, hpipe, hcons, hrun⟩ := consumes_of_advances program hs' (p := next (s.pipe.take k))
        (s := { s with pipe := s.pipe.drop k, pc := .within (next (s.pipe.take k)) }) (hnext _ htake) rfl hw h
      refine ⟨j, s.pipe.take k ++ front, rest, a, by omega, ?_, consumes_read htake hpos hcons, hrun⟩
      dsimp only at hpipe
      rw [List.append_assoc, ← hpipe, List.take_append_drop]

/-- A poll of a pipe that nobody writes to returns exactly when the pipe holds
messages, one after the other, and then it has handled them. -/
theorem drains_iff {program : Reads β (Option α)} (hprogram : Strict program) (hread : ∀ a, program ≠ .done a)
    {s s' : Poller β μ α σ} (hpc : s.pc = .peek) (hw : s.writer = true) :
    ((∃ n, s.advances handle program n = some s') ∧ s'.pc = .returned false) ↔
      ∃ as, Frames program s.pipe as ∧ s' = s.drained handle as := by
  constructor
  · rintro ⟨⟨n, hn⟩, hs'⟩
    induction n using Nat.strongRecOn generalizing s with
    | ind n ih =>
      cases n with
      | zero =>
        rw [advances, Option.some_inj] at hn
        rw [hn, hs'] at hpc
        simp at hpc
      | succ n =>
        rw [advances, advance, hpc] at hn
        dsimp only at hn
        by_cases hnil : s.pipe = []
        · rw [hnil, List.isEmpty_nil, if_pos rfl, Option.bind_some] at hn
          refine ⟨[], by rw [hnil]; exact .nil, ?_⟩
          cases n with
          | zero =>
            rw [advances, Option.some_inj] at hn
            rw [← hn, drained, hw]
            simp
          | succ n => simp [advances, advance] at hn
        · rw [if_neg (by simpa using hnil), Option.bind_some] at hn
          obtain ⟨k, front, rest, a, hk, hpipe, hcons, hrun⟩ := consumes_of_advances program hs'
            (s := { s with pc := .within program }) hprogram rfl hw hn
          obtain ⟨as, hframes, heq⟩ := ih k (by omega)
            (s := { s with pipe := rest, pc := .peek, state := handle s.state a, handled := s.handled ++ [a] }) rfl hw hrun
          have hne : front ≠ [] := by
            rintro rfl
            cases hp : program with
            | done b => exact hread b hp
            | read m next =>
              rw [hp] at hcons
              exact absurd hcons.1 (by have := hcons.2.1; simp at this; omega)
          refine ⟨a :: as, ?_, by rw [heq]; simp [drained]⟩
          dsimp only at hpipe
          rw [hpipe]
          exact .cons hne hcons hframes
  · rintro ⟨as, hframes, rfl⟩
    refine ⟨?_, rfl⟩
    generalize hpipe : s.pipe = c at hframes
    induction hframes generalizing s with
    | nil =>
      refine ⟨1, ?_⟩
      rw [advances, advance, hpc]
      simp [hpipe, advances, drained, hw]
    | @cons front rest a as hne hfront hrest ih =>
      obtain ⟨n, hn⟩ := advances_consumes handle program (s := { s with pc := .within program }) hfront rfl hpipe
      obtain ⟨m, hm⟩ := ih (s := { s with pipe := rest, pc := .peek, state := handle s.state a, handled := s.handled ++ [a] })
        rfl hw rfl
      refine ⟨n + 1 + m + 1, ?_⟩
      rw [advances, advance, hpc]
      dsimp only
      rw [if_neg (by simp [hpipe, hne]), Option.bind_some, advances_add m hn, hm]
      simp [drained]

end Poller

end Corehost.Lib
