import Mathlib.Algebra.Order.Ring.Rat
import TrwMemory.Library.Table
import TrwMemory.Library.Transition

/-!
The write-rate limiter (`security/runtime.py`): one state file holds for each session the
stamps of its charges within the window. A charge reads the clock before it takes the file's
lock; a refund runs under the lock as a whole. A charge that is admitted leaves the window of its
clock reading and itself; a refused one writes nothing. Clock readings are exact numbers of
seconds.

The file is as charges and refunds write it; unreadable items of it are not modelled, nor is
the order of the sessions in it.
-/
namespace TrwMemory.Security

open Library.Keyed Library.Transition

/-- The state file: the stamps of each session, in the order in which they were written. -/
abbrev Sessions := Table String (List Rat)

/-- `_MAX_LIVE_RATE_LIMIT_SESSIONS`. -/
def MAX_LIVE_RATE_LIMIT_SESSIONS : Nat := 10000

namespace Sessions

def stamps (file : Sessions) (session : String) : List Rat := (file.find session).getD []

/-- `0.0 <= now - stamp < 60.0`. -/
def inWindow (now stamp : Rat) : Bool := decide (0 ≤ now - stamp) && decide (now - stamp < 60)

/-- The file with the stamps outside the window dropped, and the sessions left with none. -/
def prune (now : Rat) (file : Sessions) : Sessions :=
  file.collect fun stamps =>
    let recent := stamps.filter (inWindow now)
    if recent.isEmpty then none else some recent

end Sessions

/-- What a refused charge raises, with its `retry_after`. -/
inductive RateLimitError where
  | sessionCapacity (retryAfter : Rat)
  | ownLimit (retryAfter : Rat)
  deriving DecidableEq

/-- `min(60.0, max(0.0, 60.0 - (now - stamp)))`. -/
def waitFor (now stamp : Rat) : Rat := min 60 (max 0 (60 - (now - stamp)))

/-- `_charge_write_slot` under the lock, with the clock reading taken before it. -/
def chargeWriteSlot (limit : Int) (now : Rat) (file : Sessions) (session : String) :
    Except RateLimitError Sessions :=
  let sessions := file.prune now
  let recent := sessions.stamps session
  if (sessions.find session).isNone ∧ MAX_LIVE_RATE_LIMIT_SESSIONS ≤ sessions.rows.length then
    let oldest := (sessions.rows.flatMap Prod.snd).min?.getD now
    .error (.sessionCapacity (waitFor now oldest))
  else if limit ≤ recent.length then
    .error (.ownLimit (recent.head?.elim 60 (waitFor now)))
  else .ok (sessions.put session (recent ++ [now]))

/-- `refund_write_slot` under the lock. -/
def refundWriteSlot (file : Sessions) (session : String) (receipt : Rat) : Sessions :=
  match file.find session with
  | some stamps => if receipt ∈ stamps then file.put session (stamps.erase receipt) else file
  | none => file

/-- The memo of `single_write_operation`: what the charge of each session came to. -/
abbrev WriteOperation := List (String × Option RateLimitError)

/-- `enforce_write_rate_limit`: the receipt or the refusal, with the memo and the file after it.
The key of a session id is given. -/
def enforceWriteRateLimit (limit : Int) (sessionKey : String → String)
    (operation : Option WriteOperation) (sessionId : Option String) (now : Rat)
    (file : Sessions) : Except RateLimitError (Option Rat) × Option WriteOperation × Sessions :=
  match sessionId with
  | none => (.ok none, operation, file)
  | some id =>
      if id = "" ∨ limit ≤ 0 then (.ok none, operation, file)
      else
        let session := sessionKey id
        match operation.bind fun memo => memo.lookup session with
        | some (some prior) => (.error prior, operation, file)
        | some none => (.ok none, operation, file)
        | none =>
            match chargeWriteSlot limit now file session with
            | .error refused =>
                (.error refused, operation.map ((session, some refused) :: ·), file)
            | .ok charged =>
                (.ok (if operation.isSome then none else some now),
                  operation.map ((session, none) :: ·), charged)

/-- A charge that has read the clock. -/
structure Charge where
  call : Nat
  session : String
  stamp : Rat
  deriving DecidableEq

/-- A refusal for the session's own limit: when it was raised, and what the file held of the
session then; `since` is the number of charges admitted before. -/
structure Refused where
  session : String
  raised : Rat
  retryAfter : Rat
  held : List Rat
  since : Nat

/-- The shared file, the common clock, and what has become of the calls. -/
structure Limiter where
  clock : Rat
  file : Sessions
  /-- Charges that have read the clock and do not hold the lock yet. -/
  readings : List Charge
  /-- Admitted charges, in the order in which they were written. -/
  admitted : List Charge
  /-- Calls whose charge was given back. -/
  refunded : List Nat
  refusals : List Refused
  calls : Nat

inductive LimiterEvent where
  | pass (seconds : Rat)
  | read (session : String)
  /-- The part under the lock of a charge that has read the clock. -/
  | charge (call : Nat)
  | refund (call : Nat)

namespace Limiter

def initial (clock : Rat) : Limiter := ⟨clock, Table.empty, [], [], [], [], 0⟩

/-- The admitted charges of a session that were not refunded. -/
def kept (s : Limiter) (session : String) : List Charge :=
  s.admitted.filter fun c => c.session == session && !s.refunded.contains c.call

def reading? (s : Limiter) (call : Nat) : Option Charge := s.readings.find? fun c => c.call == call

/-- The charge that a receipt was given for and that was not refunded. -/
def receipt? (s : Limiter) (call : Nat) : Option Charge :=
  if call ∈ s.refunded then none else s.admitted.find? fun c => c.call == call

/-- What the part under the lock does to the state. -/
def charged (limit : Int) (s : Limiter) (c : Charge) : Limiter :=
  let waiting := { s with readings := s.readings.erase c }
  match chargeWriteSlot limit c.stamp s.file c.session with
  | .ok file => { waiting with file := file, admitted := s.admitted ++ [c] }
  | .error (.ownLimit retryAfter) =>
      { waiting with
        refusals := s.refusals ++
          [⟨c.session, s.clock, retryAfter, s.file.stamps c.session, s.admitted.length⟩] }
  | .error (.sessionCapacity _) => waiting

def refundedBy (s : Limiter) (c : Charge) : Limiter :=
  { s with
    file := refundWriteSlot s.file c.session c.stamp
    refunded := s.refunded ++ [c.call] }

def step (limit : Int) (s : Limiter) : LimiterEvent → Option Limiter
  | .pass seconds => if 0 ≤ seconds then some { s with clock := s.clock + seconds } else none
  | .read session =>
      some { s with readings := s.readings ++ [⟨s.calls, session, s.clock⟩], calls := s.calls + 1 }
  | .charge call => (s.reading? call).map (s.charged limit)
  | .refund call => (s.receipt? call).map s.refundedBy

def machine (limit : Int) : Machine Limiter LimiterEvent := ⟨step limit⟩

end Limiter

namespace Sessions

variable {file : Sessions} {now : Rat} {session : String} {limit : Int}

theorem stamps_prune (now : Rat) (file : Sessions) (session : String) :
    (file.prune now).stamps session = (file.stamps session).filter (inWindow now) := by
  rw [stamps, stamps, prune, Table.find_collect]
  cases file.find session with
  | none => rfl
  | some held =>
      rw [Option.bind_some, Option.getD_some]
      dsimp only
      cases held.filter (inWindow now) <;> rfl

theorem stamps_put (file : Sessions) (session other : String) (held : List Rat) :
    stamps (file.put session held) other = if other = session then held else file.stamps other := by
  rw [stamps, Table.find_put]
  split <;> rfl

/-- An admitted charge finds fewer stamps than the limit in its window, and adds its own. -/
theorem charge_ok {charged : Sessions} (h : chargeWriteSlot limit now file session = .ok charged) :
    (((file.stamps session).filter (inWindow now)).length : Int) < limit ∧
      ∀ other, charged.stamps other = (file.stamps other).filter (inWindow now) ++
        if other = session then [now] else [] := by
  unfold chargeWriteSlot at h
  dsimp only at h
  split_ifs at h with hcapacity hlimit
  rw [stamps_prune] at hlimit
  obtain rfl := Except.ok.inj h
  refine ⟨Int.not_le.mp hlimit, fun other => ?_⟩
  rw [stamps_put, stamps_prune, stamps_prune]
  split
  · rename_i heq
    rw [heq]
  · rw [List.append_nil]

/-- A charge refused for the session's own limit finds that many stamps in its window. -/
theorem charge_ownLimit {retryAfter : Rat}
    (h : chargeWriteSlot limit now file session = .error (.ownLimit retryAfter)) :
    limit ≤ ((file.stamps session).filter (inWindow now)).length ∧
      retryAfter = ((file.stamps session).filter (inWindow now)).head?.elim 60 (waitFor now) := by
  unfold chargeWriteSlot at h
  dsimp only at h
  split_ifs at h with hcapacity hlimit
  · cases h
  · rw [stamps_prune] at h hlimit
    injection h with h
    injection h with h
    exact ⟨hlimit, h.symm⟩

/-- With fewer stamps than the limit in the window, and few other sessions, a charge is
admitted. -/
theorem charge_admits
    (hrecent : (((file.stamps session).filter (inWindow now)).length : Int) < limit)
    (hothers : ((file.prune now).rows.filter fun row => row.1 ≠ session).length <
      MAX_LIVE_RATE_LIMIT_SESSIONS) :
    ∃ charged, chargeWriteSlot limit now file session = .ok charged := by
  have hcapacity : ¬(((file.prune now).find session).isNone ∧
      MAX_LIVE_RATE_LIMIT_SESSIONS ≤ (file.prune now).rows.length) := by
    rintro ⟨hnone, hfull⟩
    rw [Option.isNone_iff_eq_none, Table.find_eq_none] at hnone
    have hall : ((file.prune now).rows.filter fun row => row.1 ≠ session) = (file.prune now).rows :=
      List.filter_eq_self.mpr fun row hrow =>
        decide_eq_true fun heq => hnone (heq ▸ List.mem_map_of_mem hrow)
    rw [hall] at hothers
    omega
  unfold chargeWriteSlot
  dsimp only
  rw [if_neg hcapacity, stamps_prune, if_neg (Int.not_le.mpr hrecent)]
  exact ⟨_, rfl⟩

theorem stamps_refund (file : Sessions) (session : String) (receipt : Rat) (other : String) :
    (refundWriteSlot file session receipt).stamps other =
      if other = session then (file.stamps session).erase receipt else file.stamps other := by
  unfold refundWriteSlot
  cases hfind : file.find session with
  | none =>
      have hempty : file.stamps session = [] := by rw [stamps, hfind]; rfl
      dsimp only
      by_cases heq : other = session
      · rw [if_pos heq, heq, hempty]
        rfl
      · rw [if_neg heq]
  | some held =>
      have hheld : file.stamps session = held := by rw [stamps, hfind]; rfl
      dsimp only
      rw [hheld]
      split
      · rw [stamps_put]
      · rename_i hmem
        split
        · rename_i heq
          rw [heq, hheld, List.erase_of_not_mem hmem]
        · rfl

end Sessions

/-- Inside one write operation a session is charged once: what its first charge came to decides
every later call. -/
theorem enforce_once (limit : Int) (sessionKey : String → String) (memo : WriteOperation)
    {id id' : String} (hkey : sessionKey id' = sessionKey id) (hid : id ≠ "") (hlimit : 0 < limit)
    (now now' : Rat) (file : Sessions) :
    (enforceWriteRateLimit limit sessionKey
        (enforceWriteRateLimit limit sessionKey (some memo) (some id) now file).2.1 (some id') now'
        (enforceWriteRateLimit limit sessionKey (some memo) (some id) now file).2.2).2.2 =
      (enforceWriteRateLimit limit sessionKey (some memo) (some id) now file).2.2 := by
  have hoff : ¬(id = "" ∨ limit ≤ 0) := by
    rintro (h | h)
    · exact hid h
    · omega
  have hagain : ∀ (memo : WriteOperation) (o : Option RateLimitError) (file : Sessions),
      memo.lookup (sessionKey id) = some o →
      (enforceWriteRateLimit limit sessionKey (some memo) (some id') now' file).2.2 = file := by
    intro memo o file hlookup
    rw [enforceWriteRateLimit]
    split
    · rfl
    · simp only [hkey, Option.bind_some, hlookup]
      cases o <;> rfl
  simp only [enforceWriteRateLimit.eq_2 limit sessionKey (some memo) now file id, if_neg hoff,
    Option.bind_some]
  cases hlookup : memo.lookup (sessionKey id) with
  | some o => cases o <;> exact hagain memo _ file hlookup
  | none =>
      cases chargeWriteSlot limit now file (sessionKey id) with
      | error refused => exact hagain _ (some refused) file (by simp)
      | ok charged => exact hagain _ none charged (by simp)

namespace Limiter

variable {limit : Int} {s t : Limiter}

theorem reading_mem {call : Nat} {c : Charge} (h : s.reading? call = some c) :
    c ∈ s.readings ∧ c.call = call :=
  ⟨List.mem_of_find?_eq_some h, by simpa using List.find?_some h⟩

theorem receipt_mem {call : Nat} {c : Charge} (h : s.receipt? call = some c) :
    c ∈ s.admitted ∧ c.call = call ∧ call ∉ s.refunded := by
  unfold receipt? at h
  split at h
  · cases h
  · exact ⟨List.mem_of_find?_eq_some h, by simpa using List.find?_some h, ‹_›⟩

/-- The four kinds of steps, a charge by its outcome. -/
theorem step_cases {e : LimiterEvent} (h : (machine limit).step s e = some t) :
    (∃ seconds, 0 ≤ seconds ∧ t = { s with clock := s.clock + seconds }) ∨
    (∃ session, t = { s with
      readings := s.readings ++ [⟨s.calls, session, s.clock⟩], calls := s.calls + 1 }) ∨
    (∃ call c, e = .charge call ∧ s.reading? call = some c ∧ t = s.charged limit c) ∨
    ∃ call c, e = .refund call ∧ s.receipt? call = some c ∧ t = s.refundedBy c := by
  cases e with
  | pass seconds =>
      change (if 0 ≤ seconds then _ else none) = some t at h
      split at h
      · exact .inl ⟨seconds, ‹_›, (Option.some.inj h).symm⟩
      · cases h
  | read session => exact .inr (.inl ⟨session, (Option.some.inj h).symm⟩)
  | charge call =>
      obtain ⟨c, hc, rfl⟩ := Option.map_eq_some_iff.mp h
      exact .inr (.inr (.inl ⟨call, c, rfl, hc, rfl⟩))
  | refund call =>
      obtain ⟨c, hc, rfl⟩ := Option.map_eq_some_iff.mp h
      exact .inr (.inr (.inr ⟨call, c, rfl, hc, rfl⟩))

/-- What a charge comes to. -/
theorem charged_cases (limit : Int) (s : Limiter) (c : Charge) :
    (∃ file, chargeWriteSlot limit c.stamp s.file c.session = .ok file ∧
      s.charged limit c = { s with
        readings := s.readings.erase c, file := file, admitted := s.admitted ++ [c] }) ∨
    (∃ retryAfter,
      chargeWriteSlot limit c.stamp s.file c.session = .error (.ownLimit retryAfter) ∧
      s.charged limit c = { s with
        readings := s.readings.erase c
        refusals := s.refusals ++
          [⟨c.session, s.clock, retryAfter, s.file.stamps c.session, s.admitted.length⟩] }) ∨
    ((∀ file, chargeWriteSlot limit c.stamp s.file c.session ≠ .ok file) ∧
      s.charged limit c = { s with readings := s.readings.erase c }) := by
  unfold charged
  cases hcharge : chargeWriteSlot limit c.stamp s.file c.session with
  | ok file => exact .inl ⟨file, rfl, rfl⟩
  | error refused =>
      cases refused with
      | ownLimit retryAfter => exact .inr (.inl ⟨retryAfter, rfl, rfl⟩)
      | sessionCapacity retryAfter => exact .inr (.inr ⟨fun _ h => (nomatch h), rfl⟩)

/-- Calls have one charge each, and only admitted charges are refunded. -/
structure OneCharge (s : Limiter) : Prop where
  once : ((s.readings ++ s.admitted).map Charge.call).Nodup
  begun : ∀ c ∈ s.readings ++ s.admitted, c.call < s.calls
  receipts : ∀ call ∈ s.refunded, ∃ c ∈ s.admitted, c.call = call

theorem OneCharge.fresh (h : OneCharge s) {c : Charge} (hc : c ∈ s.readings) :
    c.call ∉ s.refunded := by
  intro hrefunded
  obtain ⟨a, ha, heq⟩ := h.receipts c.call hrefunded
  have hdisjoint := h.once
  rw [List.map_append, List.nodup_append] at hdisjoint
  exact hdisjoint.2.2 _ (List.mem_map_of_mem hc) _ (List.mem_map_of_mem ha) heq.symm

theorem OneCharge.waiting_perm {c : Charge} (hc : c ∈ s.readings) :
    (s.readings ++ s.admitted).Perm (s.readings.erase c ++ (s.admitted ++ [c])) := by
  have hback : (s.readings ++ s.admitted).Perm (c :: s.readings.erase c ++ s.admitted) :=
    (List.perm_cons_erase hc).append_right _
  refine hback.trans ?_
  rw [← List.append_assoc]
  exact (List.perm_append_singleton c _).symm

theorem oneCharge_step {e : LimiterEvent} (hs : OneCharge s)
    (h : (machine limit).step s e = some t) : OneCharge t := by
  have herase : ∀ c : Charge, ((s.readings.erase c ++ s.admitted).map Charge.call).Nodup ∧
      ∀ d ∈ s.readings.erase c ++ s.admitted, d.call < s.calls := by
    intro c
    have hsub : (s.readings.erase c ++ s.admitted).Sublist (s.readings ++ s.admitted) :=
      List.erase_sublist.append_right _
    exact ⟨hs.once.sublist (hsub.map _), fun d hd => hs.begun d (hsub.subset hd)⟩
  rcases step_cases h with ⟨_, _, rfl⟩ | ⟨session, rfl⟩ | ⟨call, c, rfl, hc, rfl⟩ |
    ⟨call, c, rfl, hc, rfl⟩
  · exact ⟨hs.once, hs.begun, hs.receipts⟩
  · have hperm : (s.readings ++ [(⟨s.calls, session, s.clock⟩ : Charge)] ++ s.admitted).Perm
        (⟨s.calls, session, s.clock⟩ :: (s.readings ++ s.admitted)) := by
      rw [List.append_assoc, List.singleton_append]
      exact List.perm_middle
    refine ⟨?_, fun d hd => ?_, hs.receipts⟩
    · rw [(hperm.map Charge.call).nodup_iff, List.map_cons, List.nodup_cons]
      refine ⟨fun hmem => ?_, hs.once⟩
      obtain ⟨d, hd, heq⟩ := List.mem_map.mp hmem
      exact absurd (hs.begun d hd) (by rw [heq]; exact Nat.lt_irrefl _)
    · rcases List.mem_cons.mp (hperm.subset hd) with rfl | hd
      · exact Nat.lt_succ_self _
      · exact Nat.lt_succ_of_lt (hs.begun d hd)
  · obtain ⟨hmem, -⟩ := reading_mem hc
    have hperm := OneCharge.waiting_perm hmem
    rcases charged_cases limit s c with ⟨_, -, heq⟩ | ⟨_, -, heq⟩ | ⟨-, heq⟩
    · rw [heq]
      refine ⟨(hperm.map Charge.call).nodup_iff.mp hs.once,
        fun d hd => hs.begun d (hperm.symm.subset hd), fun call hcall => ?_⟩
      obtain ⟨a, ha, hcall⟩ := hs.receipts call hcall
      exact ⟨a, List.mem_append_left _ ha, hcall⟩
    · rw [heq]
      exact ⟨(herase c).1, (herase c).2, hs.receipts⟩
    · rw [heq]
      exact ⟨(herase c).1, (herase c).2, hs.receipts⟩
  · obtain ⟨hmem, rfl, -⟩ := receipt_mem hc
    refine ⟨hs.once, hs.begun, fun call hcall => ?_⟩
    rcases List.mem_append.mp hcall with hold | hnew
    · exact hs.receipts call hold
    · exact ⟨c, hmem, (List.mem_singleton.mp hnew).symm⟩

theorem kept_nodup (hs : OneCharge s) (session : String) :
    ((s.kept session).map Charge.call).Nodup := by
  have hadmitted := hs.once
  rw [List.map_append, List.nodup_append] at hadmitted
  exact hadmitted.2.1.sublist (List.filter_sublist.map _)

theorem kept_charged (hs : OneCharge s) {c : Charge} (hc : c ∈ s.readings) (file : Sessions)
    (session : String) :
    ({ s with readings := s.readings.erase c, file := file, admitted := s.admitted ++ [c] } :
      Limiter).kept session = s.kept session ++ if session = c.session then [c] else [] := by
  have hfresh := hs.fresh hc
  unfold kept
  rw [List.filter_append]
  congr 1
  by_cases heq : session = c.session
  · simp [heq, hfresh]
  · simp [heq, Ne.symm heq]

/-- A refund takes one charge of its session away. -/
theorem kept_refunded (hs : OneCharge s) {c : Charge} (hc : c ∈ s.admitted)
    (hnew : c.call ∉ s.refunded) (session : String) :
    (s.refundedBy c).kept session =
      if session = c.session then (s.kept session).erase c else s.kept session := by
  have hadmitted := hs.once
  rw [List.map_append, List.nodup_append] at hadmitted
  have hinj : ∀ a ∈ s.admitted, a.call = c.call → a = c :=
    fun a ha => List.inj_on_of_nodup_map hadmitted.2.1 ha hc
  have hfilter : (s.refundedBy c).kept session = (s.kept session).filter (· != c) := by
    unfold kept refundedBy
    rw [List.filter_filter]
    apply List.filter_congr
    intro a ha
    by_cases heq : a = c
    · subst heq
      simp
    · have hne : a.call ≠ c.call := fun h => heq (hinj a ha h)
      simp [heq, hne]
  rw [hfilter]
  split
  · exact ((kept_nodup hs session).of_map _).erase_eq_filter c |>.symm
  · rename_i hne
    rw [List.filter_eq_self]
    intro a ha
    have hsession := (List.mem_filter.mp ha).2
    rw [bne_iff_ne]
    rintro rfl
    simp [Ne.symm hne] at hsession

end Limiter

end TrwMemory.Security
