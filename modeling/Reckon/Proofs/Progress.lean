import Reckon.Proofs.Viability

/-!
# Readers move on

A reader only ever takes tokens off the front, and no end of input is among them
(`Takes`). Its two loops are unrolled here without asking whether they end, with the
number of their rounds:

* reading one expression goes round once for every token it takes
  (`exists_rounds`, `Rounds.takes`);
* a batch goes round once for every tree, error or fault that it gives, and each round
  takes a token (`exists_batches`, `Batches.length_eq`, `Batches.takes`).

So both loops end, however broken the tokens are, and `reader_progresses` says what this
means for calls of one reader in any order, calls that end in a fault included.
-/

namespace Reckon.Grammar

open Reckon.Parser

/-! ## Tokens that are taken -/

/-- `Takes ts taken rest`: the tokens `taken` come off the front of `ts` and `rest` is
left. The end of input is never taken. -/
structure Takes (ts taken rest : List Token) : Prop where
  split : ts = taken ++ rest
  passed : ∀ t ∈ taken, t.kind ≠ .eof

theorem Takes.refl (ts : List Token) : Takes ts [] ts :=
  ⟨rfl, fun _ member => absurd member List.not_mem_nil⟩

theorem Takes.cons {t : Token} {ts taken rest : List Token} (notEnd : t.kind ≠ .eof)
    (h : Takes ts taken rest) : Takes (t :: ts) (t :: taken) rest := by
  refine ⟨by rw [h.split, List.cons_append], fun u member => ?_⟩
  rcases List.mem_cons.mp member with rfl | later
  · exact notEnd
  · exact h.passed u later

theorem Takes.trans {ts taken mid taken' rest : List Token} (first : Takes ts taken mid)
    (second : Takes mid taken' rest) : Takes ts (taken ++ taken') rest := by
  refine ⟨by rw [first.split, second.split, List.append_assoc], fun t member => ?_⟩
  rcases List.mem_append.mp member with here | there
  · exact first.passed t here
  · exact second.passed t there

theorem Takes.length {ts taken rest : List Token} (h : Takes ts taken rest) :
    ts.length = taken.length + rest.length := by
  rw [h.split, List.length_append]

/-- Nothing is taken where the end of input stands. -/
theorem Takes.rest_of_atEnd {ts taken rest : List Token} (h : Takes ts taken rest)
    (ended : atEnd ts = true) : rest = ts := by
  cases taken with
  | nil => rw [h.split, List.nil_append]
  | cons t taken =>
      rw [h.split] at ended
      exact absurd (atEnd_iff.mp ended) (h.passed t List.mem_cons_self)

/-! ## One expression -/

/-- `Rounds s ts n reading`: from the state `s`, reading goes round `n` times and gives
`reading`. -/
inductive Rounds : State → List Token → Nat → Reading → Prop
  | stop {s : State} {ts : List Token} : take s (ts.headD Token.pastEnd) = none →
      Rounds s ts 0 (stop s (ts.headD Token.pastEnd) ts)
  | fault {s : State} {t : Token} {rest : List Token} {fault : Fault} :
      take s t = some (.error fault) → Rounds s (t :: rest) 1 (.fault fault rest)
  | take {s next : State} {t : Token} {rest : List Token} {n : Nat} {reading : Reading} :
      take s t = some (.ok next) → Rounds next rest n reading → Rounds s (t :: rest) (n + 1) reading

theorem exists_rounds (s : State) (ts : List Token) : ∃ n, Rounds s ts n (Parser.read s ts) := by
  induction ts generalizing s with
  | nil =>
      have refused : take s Token.pastEnd = none := take_eq_none_of_endsSegment rfl s
      exact ⟨0, .stop refused⟩
  | cons t rest ih =>
      cases step : Parser.take s t with
      | none =>
          rw [Parser.read, step]
          exact ⟨0, .stop step⟩
      | some outcome =>
          cases outcome with
          | error fault =>
              rw [Parser.read, step]
              exact ⟨1, .fault step⟩
          | ok next =>
              obtain ⟨n, later⟩ := ih next
              rw [read_of_take step]
              exact ⟨n + 1, .take step later⟩

theorem ne_eof_of_take {s : State} {t : Token} {outcome : Except Fault State}
    (step : take s t = some outcome) : t.kind ≠ .eof := by
  intro kind
  rw [take_eq_none_of_endsSegment (endsSegment_iff.mpr (.inr kind)) s] at step
  cases step

theorem rest_stop (s : State) (t : Token) (rest : List Token) :
    (stop s t rest).rest = rest := by
  unfold stop
  split <;> rfl

/-- Reading takes one token in each round. -/
theorem Rounds.takes {s : State} {ts : List Token} {n : Nat} {reading : Reading}
    (h : Rounds s ts n reading) : ∃ taken, taken.length = n ∧ Takes ts taken reading.rest := by
  induction h with
  | @stop s ts _ =>
      rw [rest_stop]
      exact ⟨[], rfl, .refl ts⟩
  | fault step => exact ⟨_, rfl, (Takes.refl _).cons (ne_eof_of_take step)⟩
  | @take _ _ t _ _ _ step _ ih =>
      obtain ⟨taken, rfl, takes⟩ := ih
      exact ⟨t :: taken, rfl, takes.cons (ne_eof_of_take step)⟩

/-- The literal at fault is taken. -/
theorem Rounds.pos_of_fault {s : State} {ts rest : List Token} {n : Nat} {fault : Fault}
    (h : Rounds s ts n (.fault fault rest)) : 0 < n := by
  generalize result : Reading.fault fault rest = reading at h
  cases h with
  | @stop s ts _ =>
      unfold Parser.stop at result
      split at result <;> cases result
  | fault => exact Nat.one_pos
  | take => exact Nat.succ_pos _

/-! ## Batches -/

theorem takes_readExpr (ts : List Token) : ∃ taken, Takes ts taken (readExpr ts).rest := by
  obtain ⟨n, reads⟩ := exists_rounds (.wanting []) ts
  obtain ⟨taken, _, takes⟩ := reads.takes
  exact ⟨taken, takes⟩

theorem takes_readUnit (ts : List Token) : ∃ taken, Takes ts taken (readUnit ts).rest := by
  obtain ⟨taken, takes⟩ := takes_readExpr ts
  unfold readUnit
  split
  · next e read => rw [read] at takes; exact ⟨taken, takes⟩
  · next e t rest read =>
    rw [read] at takes
    split
    · exact ⟨taken, takes⟩
    · next notEnd =>
      split
      · -- the separator is taken too
        exact ⟨taken ++ [t], takes.trans ((Takes.refl rest).cons notEnd)⟩
      · exact ⟨taken, takes⟩
  · exact ⟨taken, takes⟩

theorem takes_resume (ts : List Token) : ∃ taken, Takes ts taken (resume ts) := by
  fun_induction resume ts with
  | case1 => exact ⟨[], .refl []⟩
  | case2 t rest => exact ⟨[], .refl (t :: rest)⟩
  | case3 t rest notEnd => exact ⟨[t], (Takes.refl rest).cons notEnd⟩
  | case4 t notEnd => exact ⟨[t], (Takes.refl []).cons notEnd⟩
  | case5 t notEnd _ u more => exact ⟨[t], (Takes.refl (u :: more)).cons notEnd⟩
  | case6 t notEnd _ u more _ ih =>
      obtain ⟨taken, takes⟩ := ih
      exact ⟨t :: taken, takes.cons notEnd⟩

theorem rest_length_lt_of_readUnit_fault {ts rest : List Token} {fault : Fault}
    (h : readUnit ts = .fault fault rest) : rest.length < ts.length := by
  obtain ⟨n, reads⟩ := exists_rounds (.wanting []) ts
  have read : Parser.read (.wanting []) ts = .fault fault rest := by
    -- a unit is at fault only if its expression is
    unfold readUnit at h
    split at h
    · cases h
    · repeat' split at h
      all_goals cases h
    · exact h
  rw [read] at reads
  obtain ⟨taken, rounds, takes⟩ := reads.takes
  have length := takes.length
  have pos := reads.pos_of_fault
  simp only [Reading.rest] at length
  omega

/-- `Batches ts n batch`: reading a batch goes round `n` times and gives `batch`. -/
inductive Batches : List Token → Nat → Batch → Prop
  | ended {ts : List Token} : atEnd ts = true → Batches ts 0 ⟨[], [], ts, none⟩
  | expr {ts rest : List Token} {e : Expr} {n : Nat} {later : Batch} : atEnd ts = false →
      readUnit ts = .ok e rest → Batches rest n later → Batches ts (n + 1) (prepend [e] [] later)
  | error {ts rest : List Token} {error : SyntaxError} {n : Nat} {later : Batch} :
      atEnd ts = false → readUnit ts = .wrong error rest → Batches (resume rest) n later →
      Batches ts (n + 1) (prepend [] [error] later)
  | fault {ts rest : List Token} {fault : Fault} : atEnd ts = false →
      readUnit ts = .fault fault rest → Batches ts 1 ⟨[], [], rest, some fault⟩

theorem exists_batches (ts : List Token) : ∃ n, Batches ts n (readAll ts) := by
  fun_induction readAll ts with
  | case1 ts ended => exact ⟨0, .ended ended⟩
  | case2 ts more e rest unit later ih =>
      obtain ⟨n, batches⟩ := ih
      exact ⟨n + 1, .expr (Bool.eq_false_iff.mpr more) unit batches⟩
  | case3 ts more error rest unit later ih =>
      obtain ⟨n, batches⟩ := ih
      exact ⟨n + 1, .error (Bool.eq_false_iff.mpr more) unit batches⟩
  | case4 ts more fault rest unit => exact ⟨1, .fault (Bool.eq_false_iff.mpr more) unit⟩

/-- Each round gives a tree, an error or a fault. -/
theorem Batches.length_eq {ts : List Token} {n : Nat} {batch : Batch} (h : Batches ts n batch) :
    batch.exprs.length + batch.errors.length + batch.fault?.toList.length = n := by
  induction h with
  | ended => rfl
  | expr _ _ _ ih =>
      simp only [prepend, List.singleton_append, List.nil_append, List.length_cons]
      omega
  | error _ _ _ ih =>
      simp only [prepend, List.singleton_append, List.nil_append, List.length_cons]
      omega
  | fault => rfl

/-- Each round takes a token. -/
theorem Batches.takes {ts : List Token} {n : Nat} {batch : Batch} (h : Batches ts n batch) :
    ∃ taken, n ≤ taken.length ∧ Takes ts taken batch.rest := by
  induction h with
  | @ended ts _ => exact ⟨[], Nat.le_refl 0, .refl ts⟩
  | @expr ts rest e n later _ unit _ ih =>
      obtain ⟨taken, first⟩ := takes_readUnit ts
      rw [unit] at first
      obtain ⟨taken', bound, second⟩ := ih
      have shorter := rest_length_lt_of_readUnit_ok unit
      have length : ts.length = taken.length + rest.length := first.length
      refine ⟨taken ++ taken', ?_, first.trans second⟩
      rw [List.length_append]
      omega
  | @error ts rest error n later more unit _ ih =>
      obtain ⟨taken, first⟩ := takes_readUnit ts
      rw [unit] at first
      obtain ⟨dropped, second⟩ := takes_resume rest
      obtain ⟨taken', bound, third⟩ := ih
      -- the unit may have taken nothing, but not the unit and the resuming together
      have shorter := resume_length_lt_of_wrong more unit
      have length := (first.trans second).length
      refine ⟨taken ++ dropped ++ taken', ?_, (first.trans second).trans third⟩
      rw [List.length_append]
      omega
  | @fault ts rest fault _ unit =>
      obtain ⟨taken, takes⟩ := takes_readUnit ts
      rw [unit] at takes
      have shorter := rest_length_lt_of_readUnit_fault unit
      have length : ts.length = taken.length + rest.length := takes.length
      exact ⟨taken, by omega, takes⟩

/-- Without a fault a batch goes up to the end of input. -/
theorem Batches.atEnd {ts : List Token} {n : Nat} {batch : Batch} (h : Batches ts n batch)
    (unfaulted : batch.fault? = none) : Parser.atEnd batch.rest = true := by
  induction h with
  | ended ended => exact ended
  | expr _ _ _ ih => exact ih unfaulted
  | error _ _ _ ih => exact ih unfaulted
  | fault => cases unfaulted

end Reckon.Grammar

namespace Reckon

open Grammar Reckon.Parser

/-! ## Calls -/

/-- A call of a reader: for one expression, or for all up to the end of input. -/
inductive Call
  | expr
  | all
  deriving DecidableEq, Repr

/-- What a call gives. -/
inductive Answer
  | expr (reading : Reading)
  | all (batch : Batch)
  deriving DecidableEq, Repr

/-- `Returns ts answer n`: a call that finds the tokens `ts` gives `answer`, and its loop
goes round `n` times. -/
inductive Returns (ts : List Token) : Answer → Nat → Prop
  | expr {reading : Reading} {n : Nat} : Rounds (.wanting []) ts n reading →
      Returns ts (.expr reading) n
  | all {batch : Batch} {n : Nat} : Batches ts n batch → Returns ts (.all batch) n

namespace Reader

section Cursor

variable {ρ : Type}

/-- The number of tokens that a reader has taken off its list. -/
def cursor (tokens : List Token) (r : Reader ρ) : Nat := tokens.length - r.rest.length

/-- A reader of `tokens` stands at one of them or behind the last, with what is behind
its cursor left to read and no end of input before it. -/
structure Stands (tokens : List Token) (r : Reader ρ) : Prop where
  bounded : r.cursor tokens ≤ tokens.length
  left : r.rest = tokens.drop (r.cursor tokens)
  passed : ∀ t ∈ tokens.take (r.cursor tokens), t.kind ≠ .eof

theorem cursor_eq {tokens taken : List Token} {r : Reader ρ} (h : Takes tokens taken r.rest) :
    r.cursor tokens = taken.length := by
  rw [cursor, h.length, Nat.add_sub_cancel]

theorem stands_of_takes {tokens taken : List Token} {r : Reader ρ}
    (h : Takes tokens taken r.rest) : r.Stands tokens := by
  refine ⟨Nat.sub_le _ _, ?_, ?_⟩
  · rw [cursor_eq h, h.split, List.drop_left]
  · rw [cursor_eq h, h.split, List.take_left]
    exact h.passed

end Cursor

variable {ρ : Type} [Reporter ρ]

/-- One call: the reader after it and what it gives. -/
def call (r : Reader ρ) : Call → Reader ρ × Answer
  | .expr => (r.readExpr.1, .expr r.readExpr.2)
  | .all => (r.readAll.1, .all r.readAll.2)

/-- The reader after several calls. -/
def after (r : Reader ρ) (calls : List Call) : Reader ρ :=
  calls.foldl (fun r c => (r.call c).1) r

/-- A call takes at least one token in each of its rounds. -/
theorem call_takes (r : Reader ρ) (c : Call) : ∃ taken n, n ≤ taken.length ∧
    Returns r.rest (r.call c).2 n ∧ Takes r.rest taken (r.call c).1.rest := by
  cases c with
  | expr =>
      obtain ⟨n, reads⟩ := exists_rounds (.wanting []) r.rest
      obtain ⟨taken, rounds, takes⟩ := reads.takes
      exact ⟨taken, n, Nat.le_of_eq rounds.symm, .expr reads, takes⟩
  | all =>
      obtain ⟨n, batches⟩ := exists_batches r.rest
      obtain ⟨taken, bound, takes⟩ := batches.takes
      exact ⟨taken, n, bound, .all batches, takes⟩

theorem after_takes (r : Reader ρ) (calls : List Call) :
    ∃ taken, Takes r.rest taken (r.after calls).rest := by
  induction calls generalizing r with
  | nil => exact ⟨[], .refl r.rest⟩
  | cons c calls ih =>
      obtain ⟨taken, _, _, _, first⟩ := r.call_takes c
      obtain ⟨taken', second⟩ := ih (r.call c).1
      exact ⟨taken ++ taken', first.trans second⟩

end Reader

/-- `Advances tokens r c`: what the call `c` does to the cursor of the reader `r`. -/
structure Advances {ρ : Type} [Reporter ρ] (tokens : List Token) (r : Reader ρ) (c : Call) :
    Prop where
  /-- The cursor is among the tokens, and not behind an end of input. -/
  stands : r.Stands tokens
  /-- So it is after the call. -/
  stands_after : (r.call c).1.Stands tokens
  /-- The call does not move it back. -/
  onward : r.cursor tokens ≤ (r.call c).1.cursor tokens
  /-- The loop of the call ends, after at most one round for each token it takes. -/
  ends : ∃ n, n ≤ (r.call c).1.cursor tokens - r.cursor tokens ∧ Returns r.rest (r.call c).2 n
  /-- An expression is made of tokens. -/
  advanced : ∀ e rest, (r.call c).2 = .expr (.ok e rest) →
    r.cursor tokens < (r.call c).1.cursor tokens
  /-- A batch without a fault goes to the end, and takes a token for each of its trees and
  of the errors it hands to the reporter. -/
  finished : ∀ batch, (r.call c).2 = .all batch → batch.fault? = none →
    atEnd (r.call c).1.rest = true ∧
    (r.call c).1.reporter = Reporter.handleAll r.reporter (batch.errors.map .located) ∧
    batch.exprs.length + batch.errors.length ≤ (r.call c).1.cursor tokens - r.cursor tokens
  /-- At the end, no later calls move the cursor. -/
  settled : atEnd r.rest = true → ∀ calls, (r.after calls).cursor tokens = r.cursor tokens

theorem Reader.advances {ρ : Type} [Reporter ρ] {tokens before : List Token} {r : Reader ρ}
    (here : Takes tokens before r.rest) (c : Call) : Advances tokens r c := by
  obtain ⟨taken, n, bound, ends, step⟩ := r.call_takes c
  have there := here.trans step
  have start := Reader.cursor_eq here
  have stop := Reader.cursor_eq there
  rw [List.length_append] at stop
  refine ⟨stands_of_takes here, stands_of_takes there, by omega, ⟨n, by omega, ends⟩, ?_, ?_, ?_⟩
  · intro e rest answer
    cases c with
    | all => cases answer
    | expr =>
        have read : Parser.read (.wanting []) r.rest = .ok e rest := Answer.expr.inj answer
        have left : (r.call .expr).1.rest = rest := congrArg Reading.rest read
        have shorter := rest_length_lt_of_read_ok read
        have length := step.length
        rw [left] at length
        omega
  · intro batch answer unfaulted
    cases c with
    | expr => cases answer
    | all =>
        have given : r.readAll.2 = batch := Answer.all.inj answer
        subst given
        cases ends with
        | all batches =>
            have count := batches.length_eq
            exact ⟨batches.atEnd unfaulted, rfl, by omega⟩
  · intro ended calls
    obtain ⟨taken', later⟩ := r.after_takes calls
    rw [cursor, cursor, later.rest_of_atEnd ended]

/-- **Readers move on and stop at the end of input.** Whatever the tokens, and whatever
calls for one expression or for all were made of a reader before, the next call ends. It
does not move the cursor back, nor past an end of input or behind the tokens. An
expression that is read takes at least one token; a batch that is read goes up to the end,
with no more trees and errors than tokens taken; at the end the cursor stays where it is. -/
theorem reader_progresses {ρ : Type} [Reporter ρ] (tokens : List Token) (reporter : ρ)
    (calls : List Call) (c : Call) :
    Advances tokens (Reader.after ⟨tokens, reporter⟩ calls) c := by
  obtain ⟨taken, here⟩ := Reader.after_takes ⟨tokens, reporter⟩ calls
  exact Reader.advances here c

end Reckon
