import Corehost.Input.Calls

/-!
# What the handlers return

A handler that returns true has prepared the completion of its message, and one
that returns false has left the bridge pending on it. This is `Answers`; it
holds for every message as long as no round is dishonest (`Round.Honest`).
-/

namespace Corehost

namespace Round

variable {δ : Type}

/-- A round tells the truth about the line: a raw read that is being served does
not meet an Enter key in the Win32 encoding before another end, and the initial
data of a ReadConsole contain no end. -/
structure Honest (host : Host δ) (r : Round δ) : Prop where
  initial : r.initial = true → r.firstEnd host (fun _ => true) = none
  enter : r.served = true → r.pending.kind = .rawRead →
    ∀ rest, r.firstEnd host (fun _ => true) ≠ some (.enterKey, rest)

instance (host : Host δ) (r : Round δ) : Decidable (r.Honest host) :=
  decidable_of_iff ((r.initial = true → r.firstEnd host (fun _ => true) = none) ∧
      (r.served = true → r.pending.kind = .rawRead → (r.firstEnd host fun _ => true).map Prod.fst ≠ some .enterKey)) <| by
    refine ⟨fun ⟨hinitial, henter⟩ => ⟨hinitial, fun hs hk rest he => henter hs hk (by rw [he]; rfl)⟩,
      fun h => ⟨h.initial, fun hs hk he => ?_⟩⟩
    obtain ⟨⟨e, rest⟩, hend, rfl⟩ := Option.map_eq_some_iff.mp he
    exact h.enter hs hk rest hend

end Round

namespace Account

/-- A handler fills in the completion of its own message. -/
def prepare (a : Account) (m : MsgRef) (completion : Completion) : Account :=
  { a with msgs := Function.update a.msgs m { a.msgs m with complete := some completion } }

/-- The pending request is forgotten. -/
def drop (a : Account) (m : MsgRef) : Account :=
  { a with pending := .none, dropped := a.dropped ++ [(a.msgs m).identifier] }

/-- The answer to the message in `m`. -/
inductive Answers (a : Account) (m : MsgRef) : Bool → Account → Prop
  | done {a' : Account} {completion : Completion} (hs : Settles a a')
    (hid : completion.identifier = (a.msgs m).identifier) : Answers a m true (a'.prepare m completion)
  | dropped {m' : MsgRef} {completion : Completion} (hm : a.pending.request? = some m')
    (hreq : (a.msgs m).request = .disconnect) (hprocess : (a.msgs m').process = (a.msgs m).process)
    (hid : completion.identifier = (a.msgs m).identifier) : Answers a m true ((a.drop m').prepare m completion)
  | waits {p : Pending} (hp : a.pending = .none) (hm : p.request? = some m) : Answers a m false { a with pending := p }

theorem Settles.identifier_eq {a a' : Account} (h : Settles a a') (m : MsgRef) :
    (a'.msgs m).identifier = (a.msgs m).identifier := by
  cases h with
  | same => rfl
  | @done m' completion hm hid =>
    by_cases hmm : m = m'
    · subst hmm
      simp [Account.finish]
    · simp [Account.finish, Function.update_of_ne hmm]

theorem Settles.serving_eq {a a' : Account} (h : Settles a a') : a'.serving = a.serving := by
  cases h <;> rfl

/-- The completion of a message and that of the pending request go to different buffers. -/
theorem Settles.of_prepare {a a' : Account} {completion : Completion} (h : Settles (a.prepare m completion) a')
    (hne : a.pending.request? ≠ some m) : ∃ a'', Settles a a'' ∧ a' = a''.prepare m completion := by
  cases h with
  | same => exact ⟨a, .same, rfl⟩
  | @done m' completion' hm hid =>
    have hmm : m' ≠ m := fun h => hne (h ▸ hm)
    have hid' : completion'.identifier = (a.msgs m').identifier := by
      rw [hid, Account.prepare]
      dsimp only
      rw [Function.update_of_ne hmm]
    refine ⟨a.finish m' completion', .done hm hid', ?_⟩
    rw [Account.finish, Account.prepare, Account.finish, Account.prepare]
    dsimp only
    rw [Function.update_of_ne hmm, Function.update_of_ne hmm.symm, Function.update_comm hmm]

end Account

namespace PipeBridge

open Account

variable {δ : Type} {host : Host δ} {b b' c d : PipeBridge δ} {m : MsgRef}

/-- A chunk of an honest round ends the read exactly when it finds a line. -/
theorem ChunkRun.flag {pos : Nat} {bytes : List UInt8} (h : ChunkRun host b pos bytes c) (hm : b.reading = some m)
    (hfound : b.lineFound = false)
    (henter : b.pending.kind = .rawRead → ∀ rest, chunkEnd host b (fun _ => true) bytes ≠ some (.enterKey, rest)) :
    c.account = b.account ∧ c.lineFound = false ∨ c.pending = .none ∧ c.lineFound = true := by
  induction h with
  | done => exact .inl ⟨rfl, hfound⟩
  | stop h =>
    cases h with
    | ended =>
      rw [finish_eq]
      exact .inr ⟨rfl, rfl⟩
    | events hend hstop hcr hr =>
      rw [hm] at hr
      cases hr
  | @go b c d pos byte rest h hrun ih =>
    cases h with
    | @go c found hstop hf h =>
      have hread : (b.advance byte none (b.scan host byte).2).reading ≠ none := by
        rw [show (b.advance byte none (b.scan host byte).2).reading = b.reading from rfl, hm]
        nofun
      have hacc : c.account = b.account := h.account_eq hread
      have hscan : (b.scan host byte).1 = none := by
        cases he : (b.scan host byte).1 with
        | none => rfl
        | some e =>
          exfalso
          rw [he] at hstop
          cases hk : b.pending.kind with
          | none => rcases reading_cases hm with h | h <;> rw [h] at hk <;> cases hk
          | consoleInput => rcases reading_cases hm with h | h <;> rw [h] at hk <;> cases hk
          | consoleRead =>
            rw [pendingKind, hk] at hstop
            cases e <;> cases hstop
          | rawRead =>
            rw [pendingKind, hk] at hstop
            cases e
            case enterKey => exact henter hk rest (chunkEnd_stop he rfl rest)
            all_goals cases hstop
      have hz : c.processControlZ = b.processControlZ := h.controlZ_eq hread
      have hfound' : c.lineFound = false := by
        rw [h.same.lineFound]
        rcases hf with hf | hf
        · exact hf.trans hfound
        · rw [hscan] at hf
          cases hf
      rw [chunkEnd_cons (fun _ => true) rest (by rw [hscan]; rfl) h hz] at henter
      have ih' := ih (h.reading_eq.trans hm) hfound' (by
        rw [show c.pending = b.pending from congrArg Account.pending hacc]
        exact henter)
      rw [hacc] at ih'
      exact ih'

/-- A chunk from the pipe, for a handler. -/
theorem Reads.flag {chunk : List UInt8} (h : Reads b chunk c) (hm : b.reading = some m) (hs : b.serving = some m)
    (hon : ∀ r ∈ (c.processNewVtInput host b.readbuf.length).rounds, r.Honest host) :
    (c.processNewVtInput host b.readbuf.length).account = b.account ∧
        (c.processNewVtInput host b.readbuf.length).lineFound = false ∨
      (c.processNewVtInput host b.readbuf.length).pending = .none ∧
        (c.processNewVtInput host b.readbuf.length).lineFound = true := by
  have hchunk : c.readbuf.drop b.readbuf.length = chunk := by rw [h.readbuf, List.drop_left]
  unfold PipeBridge.processNewVtInput processInput at hon ⊢
  rw [hchunk] at hon ⊢
  have hrun := processBytes_run host (startRound { c with lineFound := false } b.readbuf.length chunk false)
    b.readbuf.length chunk
  have hacc : (startRound { c with lineFound := false } b.readbuf.length chunk false).account = b.account := h.account
  have hread : (startRound { c with lineFound := false } b.readbuf.length chunk false).reading = some m := by
    rw [← hm, reading, reading, ← show c.pending = b.pending from congrArg Account.pending h.account]
    rfl
  rw [← hacc]
  refine hrun.flag hread rfl fun hkind => ?_
  have hround : (round { c with lineFound := false } b.readbuf.length chunk false).Honest host := by
    refine hon _ ?_
    rw [hrun.kept.1]
    exact List.mem_append_right _ (List.mem_singleton_self _)
  refine hround.enter ?_ hkind
  rw [show (round { c with lineFound := false } b.readbuf.length chunk false).served = c.serving.isSome from rfl,
    show c.serving = b.serving from congrArg Account.serving h.account, hs]
  rfl

/-- `accumulate_from_pipe` says whether the request that is being served is completed. -/
theorem accumulateLoop_flag {n : Nat} (hm : b.reading = some m) (hs : b.serving = some m)
    (hon : ∀ r ∈ (accumulateLoop host n b).2.rounds, r.Honest host) :
    (accumulateLoop host n b).1 = false ∧ (accumulateLoop host n b).2.account = b.account ∨
      (accumulateLoop host n b).1 = true ∧ (accumulateLoop host n b).2.pending = .none := by
  induction n generalizing b with
  | zero => exact .inl ⟨rfl, rfl⟩
  | succ n ih =>
    obtain ⟨chunk, hread, hchunk⟩ := b.readAvailableVtInput_reads
    have hdone : ∀ {c : PipeBridge δ}, c.account = b.account → c.completePending.pending = .none := by
      intro c hc
      have hmc : c.reading = some m := by
        rw [← hm, reading, reading, show c.pending = b.pending from congrArg Account.pending hc]
      obtain ⟨status, data, line, -, -, he⟩ := completePending_reading hmc
      rw [he, finish_eq]
    rw [accumulateLoop] at hon ⊢
    generalize b.readAvailableVtInput = r at hread hchunk hon ⊢
    obtain ⟨status, c⟩ := r
    have hacc : c.account = b.account := hread.account
    cases status with
    | bytes =>
      dsimp only at hon ⊢
      split at hon
      · rename_i hfound
        rw [if_pos hfound]
        rcases hread.flag hm hs hon with ⟨-, h⟩ | ⟨h, -⟩
        · rw [h] at hfound
          cases hfound
        · exact .inr ⟨rfl, h⟩
      · rename_i hfound
        rw [if_neg hfound]
        have hcall : Call host (c.processNewVtInput host b.readbuf.length) _ := call_accumulateLoop n
        have hsub := hcall.rounds
        rcases hread.flag hm hs fun r hr => hon r (hsub.subset hr) with ⟨h, -⟩ | ⟨-, h⟩
        · rw [← h]
          refine ih ?_ ?_ hon
          · rw [← hm, reading, reading, show (c.processNewVtInput host b.readbuf.length).pending = b.pending from
              congrArg Account.pending h]
          · exact (congrArg Account.serving h).trans hs
        · exact absurd h hfound
    | empty => exact .inl ⟨rfl, hacc⟩
    | eof => exact .inr ⟨rfl, hdone (c := { c with vtEof := true }) hacc⟩
    | full => exact .inr ⟨rfl, hdone hacc⟩

theorem accumulateFromPipe_flag (hm : b.reading = some m) (hs : b.serving = some m)
    (hon : ∀ r ∈ (b.accumulateFromPipe host).2.rounds, r.Honest host) :
    (b.accumulateFromPipe host).1 = false ∧ (b.accumulateFromPipe host).2.account = b.account ∨
      (b.accumulateFromPipe host).1 = true ∧ (b.accumulateFromPipe host).2.pending = .none :=
  accumulateLoop_flag hm hs hon

/-! ## The handlers -/

/-- The account of a handler while it serves `m`. -/
def servingAccount (a : Account) (p : Pending) (m : MsgRef) : Account := { a with pending := p, serving := some m }

theorem answers_of_served {a : Account} {p : Pending} {done : Bool} (hp : a.pending = .none) (hs : a.serving = none)
    (hm : p.request? = some m) (hb : b.account = servingAccount a p m) (hcall : Call host b c)
    (hflag : done = false ∧ c.account = b.account ∨ done = true ∧ c.pending = .none) :
    Answers a m done { c.account with serving := none } := by
  have hsettles := hcall.settles
  rw [hb] at hsettles hflag
  obtain ⟨pending, msgs, completed, serving, dropped⟩ := a
  cases hp
  cases hs
  rcases hflag with ⟨rfl, hacc⟩ | ⟨rfl, hn⟩
  · rw [hacc]
    exact .waits rfl hm
  · generalize hc : c.account = a' at hsettles
    cases hsettles with
    | same =>
      have : p = .none := (congrArg Account.pending hc).symm.trans hn
      rw [this] at hm
      cases hm
    | @done m' completion hm' hid =>
      cases Option.some.inj (hm'.symm.trans hm)
      rw [Account.finish, servingAccount, if_pos rfl]
      exact .done .same hid

theorem answers_prepare (hs : Settles b.account c.account) (hid : (c.msgs m).identifier = (b.msgs m).identifier)
    (status : Nat) (data : CompletionData) : Answers b.account m true (c.prepare m status data).account :=
  .done hs hid

theorem handleRawRead_answers (hp : b.pending = .none) (hs : b.serving = none)
    (hon : ∀ r ∈ (b.handleRawRead host m).2.rounds, r.Honest host) :
    Answers b.account m (b.handleRawRead host m).1 (b.handleRawRead host m).2.account := by
  unfold handleRawRead whileServing at hon ⊢
  dsimp only at hon ⊢
  by_cases heof : b.vtEof = true
  · rw [if_pos heof]
    have h := answers_prepare (m := m) (b := b) (c := b) .same rfl statusSuccess .empty
    rw [← hs]
    exact h
  · rw [if_neg heof] at hon ⊢
    exact answers_of_served hp hs rfl rfl call_accumulateFromPipe (accumulateFromPipe_flag rfl rfl hon)

/-- The records that were waiting: the read is completed exactly by an Enter among them. -/
theorem consumeRecords_flag (hm : b.pending = .consoleRead m) (records : List InputRecord) :
    (b.consumeRecords records).1 = false ∧ (b.consumeRecords records).2.account = b.account ∨
      (b.consumeRecords records).1 = true ∧ (b.consumeRecords records).2.pending = .none := by
  have hkind : ¬b.pendingKind ≠ .consoleRead := by
    rw [pendingKind, hm]
    exact fun h => h rfl
  induction records generalizing b with
  | nil => exact .inl ⟨rfl, rfl⟩
  | cons record records ih =>
    cases record with
    | key key =>
      unfold consumeRecords
      rw [if_neg hkind]
      dsimp only
      by_cases h : key.keyDown = true ∧ key.virtualKeyCode = VK_RETURN
      · rw [editKeyEventForConsoleRead_enter h.1 h.2]
        refine .inr ⟨rfl, ?_⟩
        have hread : ({ takeItem { b with inp := records } (.key key) with lineFound := true } : PipeBridge δ).reading =
            some m := by
          rw [reading, show ({ takeItem { b with inp := records } (.key key) with lineFound := true } : PipeBridge δ).pending
            = b.pending from rfl, hm]
        obtain ⟨status, data, line, -, -, he⟩ := completePending_reading hread
        rw [if_pos rfl, editSubmitLine, he, finish_eq]
      · obtain ⟨line, he⟩ := @editKeyEventForConsoleRead_other _ (takeItem { b with inp := records } (.key key)) _ h
        rw [he]
        dsimp only
        rw [if_neg Bool.false_ne_true]
        exact ih (by exact hm) (by exact hkind)
    | windowBufferSize x y =>
      unfold consumeRecords
      rw [if_neg hkind]
      exact ih hm hkind
    | other eventType =>
      unfold consumeRecords
      rw [if_neg hkind]
      exact ih hm hkind

/-- Initial data without an end leave the read as it is. -/
theorem processInitialData_account (hp : b.pending = .consoleRead m) (initData : List UInt8)
    (hon : ∀ r ∈ (b.processInitialData host initData).rounds, r.Honest host) :
    (b.processInitialData host initData).account = b.account := by
  unfold processInitialData processInput at hon ⊢
  have hrun := processBytes_run host (startRound { b with readbuf := initData } 0 initData true) 0 initData
  have hread : (startRound { b with readbuf := initData } 0 initData true).reading ≠ none := by
    rw [show (startRound { b with readbuf := initData } 0 initData true).reading = b.reading from rfl, reading, hp]
    exact Option.some_ne_none m
  have hround : (round { b with readbuf := initData } 0 initData true).Honest host := by
    refine hon _ ?_
    show _ ∈ (processBytes host _ 0 initData).rounds
    rw [hrun.kept.1]
    exact List.mem_append_right _ (List.mem_singleton_self _)
  exact (hrun.no_end hread (hround.initial rfl)).1

theorem handleConsoleRead_answers {procZ : Bool} {initData : List UInt8} (hp : b.pending = .none) (hs : b.serving = none)
    (hon : ∀ r ∈ (b.handleConsoleRead host m procZ initData).2.rounds, r.Honest host) :
    Answers b.account m (b.handleConsoleRead host m procZ initData).1
      (b.handleConsoleRead host m procZ initData).2.account := by
  unfold handleConsoleRead whileServing at hon ⊢
  dsimp only at hon ⊢
  by_cases heof : b.vtEof = true
  · rw [if_pos heof]
    have h := answers_prepare (m := m) (b := b) (c := b) .same rfl statusSuccess .empty
    rw [← hs]
    exact h
  · rw [if_neg heof] at hon ⊢
    generalize hb1 : ({ b with
      serving := some m, pending := .consoleRead m, processControlZ := procZ, readbuf := [], lineFound := false
      line := { buf := [], cursor := 0, history := b.line.history.resetBrowse } } : PipeBridge δ) = b1 at hon ⊢
    have hacc : b1.account = servingAccount b.account (.consoleRead m) m := by rw [← hb1]; rfl
    have hp1 : b1.pending = .consoleRead m := by rw [← hb1]
    generalize hb2 : (if initData.take bodySize ≠ [] then b1.processInitialData host (initData.take bodySize) else b1) = b2
      at hon ⊢
    have hcall2 : Call host b1 b2 := by
      rw [← hb2]
      split
      · exact call_processInitialData hp1 _
      · exact .refl b1
    have hacc2 : (∀ r ∈ b2.rounds, r.Honest host) → b2.account = b1.account := by
      intro hon2
      rw [← hb2] at hon2 ⊢
      split
      · rename_i hne
        rw [if_pos hne] at hon2
        exact processInitialData_account hp1 _ hon2
      · rfl
    have hcall3 : Call host b2 b2.consumeInputBufferForConsoleRead.2 := call_consumeRecords b2.inp
    have hflag3 : b2.pending = .consoleRead m → _ := fun h => consumeRecords_flag h b2.inp
    unfold consumeInputBufferForConsoleRead at hon hcall3 ⊢
    generalize b2.consumeRecords b2.inp = r at hon hcall3 hflag3 ⊢
    obtain ⟨done, b3⟩ := r
    cases done with
    | true =>
      have ha2 := hacc2 fun r hr => hon r (hcall3.rounds.subset hr)
      have hp2 : b2.pending = .consoleRead m := (congrArg Account.pending ha2).trans hp1
      refine answers_of_served hp hs rfl hacc (hcall2.trans hcall3) (.inr ⟨rfl, ?_⟩)
      rcases hflag3 hp2 with ⟨h, -⟩ | ⟨-, h⟩
      · cases h
      · exact h
    | false =>
      have hcall4 : Call host b3 (b3.accumulateFromPipe host).2 := call_accumulateFromPipe
      have ha2 := hacc2 fun r hr => hon r ((hcall3.trans hcall4).rounds.subset hr)
      have hp2 : b2.pending = .consoleRead m := (congrArg Account.pending ha2).trans hp1
      have ha3 : b3.account = b2.account := by
        rcases hflag3 hp2 with ⟨-, h⟩ | ⟨h, -⟩
        · exact h
        · cases h
      have hacc3 : b3.account = servingAccount b.account (.consoleRead m) m := ha3.trans (ha2.trans hacc)
      have hread3 : b3.reading = some m := by
        rw [reading, show b3.pending = .consoleRead m from congrArg Account.pending hacc3]
      exact answers_of_served hp hs rfl hacc3 hcall4
        (accumulateFromPipe_flag hread3 (congrArg Account.serving hacc3) hon)

/-- The events that are waiting do not touch the requests. -/
theorem prepareConsoleInputEvents_account : (b.prepareConsoleInputEvents host).account = b.account := by
  by_cases h : b.hasPending = true
  · rw [prepareConsoleInputEvents, if_pos h]
  · have hcall : Call host b (b.prepareConsoleInputEvents host) := call_prepareConsoleInputEvents
    exact hcall.settles.of_none (show b.pending = .none by simpa [hasPending] using h)

theorem handleConsoleInput_answers {r : GetConsoleInputMsg} (hs : b.serving = none)
    (hwait : b.hasPending = true → hasFlag r.flags CONSOLE_READ_NOWAIT = true) :
    Answers b.account m (b.handleConsoleInput host m r).1 (b.handleConsoleInput host m r).2.account := by
  unfold handleConsoleInput whileServing
  dsimp only
  have hacc : (prepareConsoleInputEvents host { b with serving := some m }).account =
      { b.account with serving := some m } := prepareConsoleInputEvents_account
  generalize prepareConsoleInputEvents host { b with serving := some m } = c at hacc ⊢
  have hprep : ∀ (inp : List InputRecord) (status : Nat) (data : CompletionData), Answers b.account m true
      (account { prepare { c with inp } m status data with serving := none }) := by
    intro inp status data
    have hc : account { c with serving := none } = b.account := by
      rw [account, show c.pending = b.pending from congrArg Account.pending hacc,
        show c.msgs = b.msgs from congrArg Account.msgs hacc,
        show c.completed = b.completed from congrArg Account.completed hacc,
        show c.dropped = b.dropped from congrArg Account.dropped hacc, account, hs]
    have h := answers_prepare (m := m) (b := b) (c := { c with serving := none }) (by rw [hc]; exact .same)
      (by rw [show c.msgs = b.msgs from congrArg Account.msgs hacc]) status data
    exact h
  split
  · exact hprep c.inp _ _
  · split
    · exact hprep c.inp _ _
    · split
      · rename_i h
        have hp : b.pending = .none := by
          by_contra hne
          have hpend : b.hasPending = true := by simpa [hasPending] using hne
          rw [hwait hpend] at h
          cases h.2
        have hw := Answers.waits (a := b.account) (p := .consoleInput m) (m := m) hp rfl
        have hc : account { c with serving := none, pending := .consoleInput m } =
            { b.account with pending := .consoleInput m } := by
          rw [account, show c.msgs = b.msgs from congrArg Account.msgs hacc,
            show c.completed = b.completed from congrArg Account.completed hacc,
            show c.dropped = b.dropped from congrArg Account.dropped hacc, account, hs]
        rw [← hc] at hw
        exact hw
      · exact hprep _ _ _

/-- A ReadConsole is refused, or it is served with its initial data. -/
theorem apiReadConsole_cases (host : Host δ) (b : PipeBridge δ) (m : MsgRef) (r : ReadConsoleMsg) :
    (∃ status, b.apiReadConsole host m r = (true, b.prepare m status)) ∨
      ∃ procZ initData, b.apiReadConsole host m r = b.handleConsoleRead host m procZ initData := by
  unfold apiReadConsole
  dsimp only
  split
  · exact .inl ⟨_, rfl⟩
  · split
    · exact .inr ⟨_, _, rfl⟩
    · split
      · exact .inl ⟨_, rfl⟩
      · split
        · exact .inl ⟨_, rfl⟩
        · split
          · exact .inl ⟨_, rfl⟩
          · exact .inr ⟨_, _, rfl⟩

theorem apiReadConsole_answers {r : ReadConsoleMsg} (hp : b.pending = .none) (hs : b.serving = none)
    (hon : ∀ r' ∈ (b.apiReadConsole host m r).2.rounds, r'.Honest host) :
    Answers b.account m (b.apiReadConsole host m r).1 (b.apiReadConsole host m r).2.account := by
  rcases apiReadConsole_cases host b m r with ⟨status, he⟩ | ⟨procZ, initData, he⟩
  · rw [he]
    exact answers_prepare .same rfl status .empty
  · rw [he] at hon ⊢
    exact handleConsoleRead_answers hp hs hon

/-! ## The router -/

theorem onMessage_answers (hs : b.serving = none) (hne : b.pending.request? ≠ some m)
    (hgate : b.hasPending = true → mayWaitForInput (b.msgs m) = false)
    (hon : ∀ r ∈ (b.onMessage host m).2.rounds, r.Honest host) :
    Answers b.account m (b.onMessage host m).1 (b.onMessage host m).2.account := by
  have hprep : ∀ status data, Answers b.account m true (b.prepare m status data).account :=
    answers_prepare .same rfl
  have hnone : mayWaitForInput (b.msgs m) = true → b.pending = .none := by
    intro hw
    by_contra hp
    have hpend : b.hasPending = true := by simpa [hasPending] using hp
    rw [hgate hpend] at hw
    cases hw
  cases hreq : (b.msgs m).request with
  | rawRead size =>
    have hp := hnone (by rw [mayWaitForInput, hreq])
    simp only [onMessage, hreq] at hon ⊢
    exact handleRawRead_answers hp hs hon
  | readConsole r =>
    have hp := hnone (by rw [mayWaitForInput, hreq])
    simp only [onMessage, hreq] at hon ⊢
    split at hon
    · rename_i hsize
      rw [if_pos hsize]
      exact hprep _ _
    · rename_i hsize
      rw [if_neg hsize]
      exact apiReadConsole_answers hp hs hon
  | getConsoleInput r =>
    have hwait : ¬r.inputSize < messageHeaderSize + getConsoleInputSize → b.hasPending = true →
        hasFlag r.flags CONSOLE_READ_NOWAIT = true := by
      intro hsize hpend
      have h := hgate hpend
      simpa [mayWaitForInput, hreq, hsize] using h
    simp only [onMessage, hreq]
    split
    · exact hprep _ _
    · rename_i hsize
      exact handleConsoleInput_answers hs (hwait hsize)
  | getNumberOfInputEvents =>
    simp only [onMessage, hreq]
    have hacc : (b.prepareConsoleInputEvents host).account = b.account := prepareConsoleInputEvents_account
    exact answers_prepare (by rw [hacc]; exact .same)
      (by rw [show (b.prepareConsoleInputEvents host).msgs = b.msgs from congrArg Account.msgs hacc]) _ _
  | writeConsoleInput append records =>
    simp only [onMessage, hreq]
    generalize (if append = true then inputWrite b.inp records else inputPrepend b.inp records) = inp
    have hwritten : Call host (prepare { b with inp } m) (onConsoleInputWritten (prepare { b with inp } m)) :=
      call_onConsoleInputWritten
    have hs' : Settles (b.account.prepare m _) (onConsoleInputWritten (prepare { b with inp } m)).account :=
      hwritten.settles
    split
    · obtain ⟨a, ha, he⟩ := Settles.of_prepare hs' hne
      rw [he]
      exact .done ha rfl
    · exact hprep _ _
  | flushInput =>
    simp only [onMessage, hreq]
    exact hprep _ _
  | setInputMode mode =>
    simp only [onMessage, hreq]
    exact hprep _ _
  | output responses cursorQueries =>
    simp only [onMessage, hreq]
    have hemits : Emits b (b.emitRawSequenceAsInput host responses) := emits_emitRawSequenceAsInput responses
    exact answers_prepare (hemits.trans (emits_sync _)).settles (hemits.settles.identifier_eq m) _ _
  | disconnect =>
    simp only [onMessage, hreq]
    unfold dropPendingReadOf
    split
    · exact hprep _ _
    · rename_i m' hm
      split
      · exact hprep _ _
      · rename_i hprocess
        exact .dropped hm hreq (not_not.mp hprocess) rfl
  | empty =>
    simp only [onMessage, hreq]
    exact hprep _ _
  | connect =>
    simp only [onMessage, hreq]
    exact hprep _ _
  | other =>
    simp only [onMessage, hreq]
    exact hprep _ _

end PipeBridge

end Corehost
