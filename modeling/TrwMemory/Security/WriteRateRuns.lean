import Mathlib.Tactic.Linarith
import TrwMemory.Security.WriteRate

/-!
Runs of the limiter. As long as no charge is admitted on a clock reading from before that of a
charge admitted earlier, the file holds exactly the charges that count in the window of the
last reading, and the limit holds in every window.
-/
namespace TrwMemory.Security

open Library.Keyed Library.Transition Sessions

namespace Limiter

/-- The charge lies in the window of 60 seconds that begins here. -/
def within (start : Rat) (c : Charge) : Bool :=
  decide (start ≤ c.stamp) && decide (c.stamp < start + 60)

/-- In every window a session has at most the limit of charges that were not refunded. -/
def LimitKept (limit : Int) (s : Limiter) : Prop :=
  ∀ session start, ((s.kept session).countP (within start) : Int) ≤ limit

/-- Of the charges still in the window the file holds those that were not refunded. -/
def LiveHeld (s : Limiter) : Prop :=
  ∀ session stamp, s.clock - stamp < 60 →
    (s.file.stamps session).count stamp = ((s.kept session).map Charge.stamp).count stamp

/-- A refund takes one stamp of its receipt out of the file, and nothing else. -/
def RefundsOwn (limit : Int) (s : Limiter) : Prop :=
  ∀ call t, (machine limit).step s (.refund call) = some t →
    ∃ c ∈ s.admitted, c.call = call ∧ t.admitted = s.admitted ∧
      ∀ session, t.file.stamps session =
        if session = c.session then (s.file.stamps session).erase c.stamp
        else s.file.stamps session

/-- A charge of a session that has read the clock as late as it was told is admitted, if no
charge of the session was since and fewer sessions than fit are live besides. -/
def RetriesAdmitted (limit : Int) (s : Limiter) : Prop :=
  ∀ r ∈ s.refusals, ∀ call c, s.reading? call = some c → c.session = r.session →
    r.raised + r.retryAfter ≤ c.stamp →
    (∀ a ∈ s.admitted.drop r.since, a.session ≠ r.session) →
    ((s.file.prune c.stamp).rows.filter fun row => row.1 ≠ c.session).length <
      MAX_LIVE_RATE_LIMIT_SESSIONS →
    ∃ t, (machine limit).step s (.charge call) = some t ∧ c ∈ t.admitted

/-- No charge is admitted on a clock reading from before that of one admitted earlier. -/
def Timely (limit : Int) (s : Limiter) : LimiterEvent → Prop
  | .charge call => ∀ c ∈ s.reading? call,
      (chargeWriteSlot limit c.stamp s.file c.session).isOk = true →
        ∀ a ∈ s.admitted, a.stamp ≤ c.stamp
  | _ => True

instance (limit : Int) (s : Limiter) : (e : LimiterEvent) → Decidable (Timely limit s e)
  | .charge call => inferInstanceAs (Decidable (∀ c ∈ s.reading? call,
      (chargeWriteSlot limit c.stamp s.file c.session).isOk = true →
        ∀ a ∈ s.admitted, a.stamp ≤ c.stamp))
  | .pass _ | .read _ | .refund _ => isTrue trivial

/-- The record of a refusal: what the file held of the session was at the limit, and the wait
reaches to where the first stamp leaves the window. -/
structure RefusedWell (limit : Int) (s : Limiter) (r : Refused) : Prop where
  atLimit : (r.held.length : Int) ≤ limit
  waits : ∃ first, r.held.head? = some first ∧ first + 60 ≤ r.raised + r.retryAfter
  since : r.since ≤ s.admitted.length
  held : (∀ a ∈ s.admitted.drop r.since, a.session ≠ r.session) →
    (s.file.stamps r.session).Sublist r.held

structure InOrder (limit : Int) (s : Limiter) : Prop extends OneCharge s where
  readings_le : ∀ c ∈ s.readings, c.stamp ≤ s.clock
  admitted_le : ∀ a ∈ s.admitted, a.stamp ≤ s.clock
  file_le : ∀ session, ∀ stamp ∈ s.file.stamps session, ∃ a ∈ s.admitted, stamp ≤ a.stamp
  atLimit : ∀ session, ((s.file.stamps session).length : Int) ≤ limit
  exact : ∀ session stamp, (∀ a ∈ s.admitted, a.stamp - 60 < stamp) →
    (s.file.stamps session).count stamp = ((s.kept session).map Charge.stamp).count stamp
  limitKept : LimitKept limit s
  refused : ∀ r ∈ s.refusals, RefusedWell limit s r

variable {limit : Int} {s t : Limiter}

theorem inOrder_initial (hlimit : 0 < limit) (clock : Rat) : InOrder limit (initial clock) where
  once := List.nodup_nil
  begun := fun _ hc => nomatch hc
  receipts := fun _ hc => nomatch hc
  readings_le := fun _ hc => nomatch hc
  admitted_le := fun _ ha => nomatch ha
  file_le := fun _ _ hstamp => nomatch hstamp
  atLimit := fun _ => Int.le_of_lt hlimit
  exact := fun _ _ _ => rfl
  limitKept := fun _ _ => Int.le_of_lt hlimit
  refused := fun _ hr => nomatch hr

theorem inWindow_iff {now stamp : Rat} :
    inWindow now stamp = true ↔ stamp ≤ now ∧ now < stamp + 60 := by
  rw [inWindow, Bool.and_eq_true, decide_eq_true_eq, decide_eq_true_eq]
  constructor
  · rintro ⟨h, h'⟩
    constructor <;> linarith
  · rintro ⟨h, h'⟩
    constructor <;> linarith

/-- In the window of a reading not before the admitted charges the file holds those that
count. -/
theorem InOrder.live_perm (hs : InOrder limit s) {now : Rat}
    (hnow : ∀ a ∈ s.admitted, a.stamp ≤ now)
    (session : String) :
    ((s.file.stamps session).filter (inWindow now)).Perm
      (((s.kept session).map Charge.stamp).filter (inWindow now)) := by
  rw [List.perm_iff_count]
  intro stamp
  cases hlive : inWindow now stamp with
  | true =>
      rw [List.count_filter hlive, List.count_filter hlive]
      apply hs.exact session stamp
      intro a ha
      have hle := hnow a ha
      have hlt := (inWindow_iff.mp hlive).2
      linarith
  | false =>
      have hnone : ∀ stamps : List Rat, (stamps.filter (inWindow now)).count stamp = 0 := by
        intro stamps
        refine List.count_eq_zero.mpr fun hmem => ?_
        rw [(List.mem_filter.mp hmem).2] at hlive
        cases hlive
      rw [hnone, hnone]

/-- A reading that is admitted in time keeps the file exact. -/
theorem InOrder.exact_charged (hs : InOrder limit s) {c : Charge}
    {file : Sessions} (hcharge : chargeWriteSlot limit c.stamp s.file c.session = .ok file)
    (htimely : ∀ a ∈ s.admitted, a.stamp ≤ c.stamp) (session : String) (stamp : Rat)
    (hstamp : ∀ a ∈ s.admitted ++ [c], a.stamp - 60 < stamp) :
    (file.stamps session).count stamp =
      ((s.kept session ++ if session = c.session then [c] else []).map Charge.stamp).count
        stamp := by
  have hold := hs.exact session stamp fun a ha => hstamp a (List.mem_append_left _ ha)
  have hnew := hstamp c (by simp)
  have hlive : ((s.file.stamps session).filter (inWindow c.stamp)).count stamp =
      (s.file.stamps session).count stamp := by
    by_cases hmem : stamp ∈ s.file.stamps session
    · obtain ⟨a, ha, hle⟩ := hs.file_le session stamp hmem
      have hnow := htimely a ha
      exact List.count_filter (inWindow_iff.mpr ⟨by linarith, by linarith⟩)
    · rw [List.count_eq_zero.mpr hmem]
      exact List.count_eq_zero.mpr fun h => hmem (List.mem_filter.mp h).1
  rw [(charge_ok hcharge).2, List.count_append, hlive, hold, List.map_append, List.count_append]
  split <;> rfl

/-- The limit holds in the windows of a charge that is admitted in time. -/
theorem InOrder.limitKept_charged (hs : InOrder limit s) {c : Charge} {file : Sessions}
    (hcharge : chargeWriteSlot limit c.stamp s.file c.session = .ok file)
    (htimely : ∀ a ∈ s.admitted, a.stamp ≤ c.stamp) (session : String) (start : Rat) :
    ((s.kept session ++ if session = c.session then [c] else []).countP (within start) : Int) ≤
      limit := by
  rw [List.countP_append]
  split
  · rename_i hsession
    cases hin : within start c with
    | false =>
        rw [List.countP_singleton, hin]
        simpa using hs.limitKept session start
    | true =>
        have hwindow : ∀ a ∈ s.kept session, within start a = true →
            (inWindow c.stamp ∘ Charge.stamp) a = true := by
          intro a ha hwithin
          simp only [within, Bool.and_eq_true, decide_eq_true_eq] at hwithin hin
          have hle := htimely a (List.mem_filter.mp ha).1
          exact inWindow_iff.mpr ⟨hle, by linarith [hwithin.1, hin.2]⟩
        have hcount : (s.kept session).countP (within start) ≤
            ((s.file.stamps session).filter (inWindow c.stamp)).length := by
          rw [(hs.live_perm htimely session).length_eq, ← List.countP_eq_length_filter,
            List.countP_map]
          exact List.countP_mono_left hwindow
        have hroom := (charge_ok hcharge).1
        rw [← hsession] at hroom
        rw [List.countP_singleton, hin]
        simp only [↓reduceIte]
        omega
  · simpa using hs.limitKept session start

theorem InOrder.charged_ok (hs : InOrder limit s) {c : Charge} (hc : c ∈ s.readings)
    {file : Sessions} (hcharge : chargeWriteSlot limit c.stamp s.file c.session = .ok file)
    (htimely : ∀ a ∈ s.admitted, a.stamp ≤ c.stamp)
    (honce : OneCharge { s with
      readings := s.readings.erase c, file := file, admitted := s.admitted ++ [c] }) :
    InOrder limit { s with
      readings := s.readings.erase c, file := file, admitted := s.admitted ++ [c] } where
  toOneCharge := honce
  readings_le := fun d hd => hs.readings_le d (List.mem_of_mem_erase hd)
  admitted_le := by
    intro a ha
    rcases List.mem_append.mp ha with hold | hnew
    · exact hs.admitted_le a hold
    · rw [List.mem_singleton.mp hnew]
      exact hs.readings_le c hc
  file_le := by
    intro session stamp hstamp
    dsimp only at hstamp
    rw [(charge_ok hcharge).2] at hstamp
    rcases List.mem_append.mp hstamp with hold | hnew
    · obtain ⟨a, ha, hle⟩ := hs.file_le session stamp (List.mem_filter.mp hold).1
      exact ⟨a, List.mem_append_left _ ha, hle⟩
    · refine ⟨c, by simp, ?_⟩
      split at hnew
      · exact le_of_eq (List.mem_singleton.mp hnew)
      · cases hnew
  atLimit := by
    intro session
    dsimp only
    rw [(charge_ok hcharge).2, List.length_append]
    have hle := hs.atLimit session
    have hfilter := List.length_filter_le (inWindow c.stamp) (s.file.stamps session)
    split
    · rename_i hsession
      have hroom := (charge_ok hcharge).1
      rw [← hsession] at hroom
      rw [List.length_singleton]
      omega
    · rw [List.length_nil]
      omega
  exact := by
    intro session stamp hstamp
    rw [kept_charged hs.toOneCharge hc]
    exact hs.exact_charged hcharge htimely session stamp hstamp
  limitKept := by
    intro session start
    rw [kept_charged hs.toOneCharge hc]
    exact hs.limitKept_charged hcharge htimely session start
  refused := by
    intro r hr
    have hold := hs.refused r hr
    refine ⟨hold.atLimit, hold.waits, ?_, fun hnone => ?_⟩
    · dsimp only
      rw [List.length_append]
      exact Nat.le_add_right_of_le hold.since
    · dsimp only at hnone ⊢
      rw [List.drop_append_of_le_length hold.since] at hnone
      have hother : r.session ≠ c.session := (hnone c (by simp)).symm
      have hheld := hold.held fun a ha => hnone a (List.mem_append_left _ ha)
      rw [(charge_ok hcharge).2, if_neg hother, List.append_nil]
      exact List.filter_sublist.trans hheld

theorem waitFor_eq {now stamp : Rat} (h : inWindow now stamp = true) :
    waitFor now stamp = 60 - (now - stamp) := by
  obtain ⟨hle, hlt⟩ := inWindow_iff.mp h
  rw [waitFor, max_eq_right (by linarith), min_eq_right (by linarith)]

/-- A refusal for the session's own limit finds all that the file holds of the session in the
window. -/
theorem InOrder.refusedWell (hs : InOrder limit s) (hlimit : 0 < limit) {c : Charge}
    (hc : c ∈ s.readings) {retryAfter : Rat}
    (hcharge : chargeWriteSlot limit c.stamp s.file c.session = .error (.ownLimit retryAfter)) :
    RefusedWell limit s
      ⟨c.session, s.clock, retryAfter, s.file.stamps c.session, s.admitted.length⟩ := by
  obtain ⟨hfull, hretry⟩ := charge_ownLimit hcharge
  have hlength := hs.atLimit c.session
  have hall : (s.file.stamps c.session).filter (inWindow c.stamp) = s.file.stamps c.session :=
    List.filter_sublist.eq_of_length_le (by omega)
  rw [hall] at hfull hretry
  refine ⟨hlength, ?_, Nat.le_refl _, fun _ => .refl _⟩
  dsimp only
  cases hheld : s.file.stamps c.session with
  | nil =>
      rw [hheld] at hfull
      exact absurd hfull (by simpa using hlimit)
  | cons first rest =>
      have hin : inWindow c.stamp first = true := by
        have hmem : first ∈ (s.file.stamps c.session).filter (inWindow c.stamp) := by
          rw [hall, hheld]
          exact List.mem_cons_self
        exact (List.mem_filter.mp hmem).2
      rw [hheld, List.head?_cons, Option.elim_some, waitFor_eq hin] at hretry
      have hle := hs.readings_le c hc
      exact ⟨first, rfl, by linarith⟩

/-- What the part under the lock of a charge keeps. -/
theorem InOrder.charged (hs : InOrder limit s) (hlimit : 0 < limit) {call : Nat} {c : Charge}
    (hc : s.reading? call = some c) (htimely : Timely limit s (.charge call))
    (honce : OneCharge (s.charged limit c)) : InOrder limit (s.charged limit c) := by
  have hmem := (reading_mem hc).1
  rcases charged_cases limit s c with ⟨file, hcharge, heq⟩ | ⟨retryAfter, hcharge, heq⟩ | ⟨-, heq⟩
  · rw [heq] at honce ⊢
    exact hs.charged_ok hmem hcharge (htimely c hc (by rw [hcharge]; rfl)) honce
  · rw [heq] at honce ⊢
    refine { hs with
      toOneCharge := honce
      readings_le := fun d hd => hs.readings_le d (List.mem_of_mem_erase hd)
      refused := fun r hr => ?_ }
    rcases List.mem_append.mp hr with hold | hnew
    · exact { hs.refused r hold with }
    · rw [List.mem_singleton.mp hnew]
      exact { hs.refusedWell hlimit hmem hcharge with }
  · rw [heq] at honce ⊢
    exact { hs with
      toOneCharge := honce
      readings_le := fun d hd => hs.readings_le d (List.mem_of_mem_erase hd)
      refused := fun r hr => { hs.refused r hr with } }

theorem InOrder.refunded (hs : InOrder limit s) {call : Nat} {c : Charge}
    (hc : s.receipt? call = some c) (honce : OneCharge (s.refundedBy c)) :
    InOrder limit (s.refundedBy c) := by
  obtain ⟨hmem, hcall, hnew⟩ := receipt_mem hc
  rw [← hcall] at hnew
  have hstamps : ∀ session, (s.refundedBy c).file.stamps session =
      if session = c.session then (s.file.stamps c.session).erase c.stamp
      else s.file.stamps session := stamps_refund s.file c.session c.stamp
  have hsub :
      ∀ session, ((s.refundedBy c).file.stamps session).Sublist (s.file.stamps session) := by
    intro session
    rw [hstamps]
    split
    · rename_i heq
      rw [heq]
      exact List.erase_sublist
    · exact .refl _
  have hkept : ∀ session, ((s.refundedBy c).kept session).Sublist (s.kept session) := by
    intro session
    rw [kept_refunded hs.toOneCharge hmem hnew]
    split
    · exact List.erase_sublist
    · exact .refl _
  have hin : c ∈ s.kept c.session := List.mem_filter.mpr ⟨hmem, by simp [hnew]⟩
  refine ⟨honce, hs.readings_le, hs.admitted_le,
    fun session stamp h => hs.file_le session stamp ((hsub session).subset h),
    fun session => ?_, fun session stamp h => ?_, fun session start => ?_, fun r hr => ?_⟩
  · have hle := (hsub session).length_le
    have hold := hs.atLimit session
    omega
  · have hold := hs.exact session stamp h
    rw [hstamps, kept_refunded hs.toOneCharge hmem hnew]
    split
    · rename_i heq
      subst heq
      have hperm := (List.perm_cons_erase hin).map Charge.stamp
      have hcount := hperm.count_eq stamp
      rw [List.map_cons, List.count_cons] at hcount
      rw [List.count_erase, hold, hcount]
      omega
    · exact hold
  · have hle := (hkept session).countP_le (p := within start)
    have hold := hs.limitKept session start
    omega
  · exact { hs.refused r hr with held := fun h => (hsub _).trans ((hs.refused r hr).held h) }

theorem inOrder_step (hlimit : 0 < limit) :
    (machine limit).Preserves (Timely limit) (InOrder limit) := by
  intro s e t hs htimely h
  have honce := oneCharge_step hs.toOneCharge h
  rcases step_cases h with ⟨seconds, hseconds, rfl⟩ | ⟨session, rfl⟩ | ⟨call, c, rfl, hc, rfl⟩ |
    ⟨call, c, rfl, hc, rfl⟩
  · have hlater : ∀ stamp, stamp ≤ s.clock → stamp ≤ s.clock + seconds :=
      fun stamp hle => by linarith
    exact { hs with
      toOneCharge := honce
      readings_le := fun d hd => hlater _ (hs.readings_le d hd)
      admitted_le := fun a ha => hlater _ (hs.admitted_le a ha)
      refused := fun r hr => { hs.refused r hr with } }
  · refine { hs with
      toOneCharge := honce
      readings_le := fun d hd => ?_
      refused := fun r hr => { hs.refused r hr with } }
    rcases List.mem_append.mp hd with hold | hnew
    · exact hs.readings_le d hold
    · rw [List.mem_singleton.mp hnew]
  · exact hs.charged hlimit hc htimely honce
  · exact hs.refunded hc honce

theorem InOrder.liveHeld (hs : InOrder limit s) : LiveHeld s := by
  intro session stamp hstamp
  apply hs.exact session stamp
  intro a ha
  have hle := hs.admitted_le a ha
  linarith

theorem refundsOwn (limit : Int) (s : Limiter) : RefundsOwn limit s := by
  intro call t h
  obtain ⟨c, hc, rfl⟩ := Option.map_eq_some_iff.mp h
  obtain ⟨hmem, hcall, -⟩ := receipt_mem hc
  refine ⟨c, hmem, hcall, rfl, fun session => ?_⟩
  refine (stamps_refund s.file c.session c.stamp session).trans ?_
  split
  · rename_i heq
    rw [heq]
  · rfl

theorem InOrder.retriesAdmitted (hs : InOrder limit s) : RetriesAdmitted limit s := by
  intro r hr call c hc hsession hwait hnone hothers
  have hwell := hs.refused r hr
  obtain ⟨first, hfirst, hleaves⟩ := hwell.waits
  obtain ⟨rest, hheld⟩ : ∃ rest, r.held = first :: rest := List.head?_eq_some_iff.mp hfirst
  have hgone : inWindow c.stamp first = false := by
    rw [← Bool.not_eq_true, inWindow_iff]
    rintro ⟨-, hlt⟩
    linarith
  have hrecent : (((s.file.stamps c.session).filter (inWindow c.stamp)).length : Int) < limit := by
    have hsub := (hwell.held hnone).filter (inWindow c.stamp)
    rw [hheld, List.filter_cons_of_neg (by simp [hgone]), ← hsession] at hsub
    have hle := hsub.length_le
    have hfilter := List.length_filter_le (inWindow c.stamp) rest
    have hlength := hwell.atLimit
    rw [hheld, List.length_cons] at hlength
    omega
  obtain ⟨file, hcharge⟩ := charge_admits hrecent hothers
  refine ⟨s.charged limit c, Option.map_eq_some_iff.mpr ⟨c, hc, rfl⟩, ?_⟩
  simp [Limiter.charged, hcharge]

/-- As long as no charge is admitted on a clock reading from before that of one admitted
earlier, in every state of every run the limit holds in every window, the file holds what is
live, a refund takes its own stamp, and a charge that has waited as told is admitted. -/
theorem writeRate_runs {limit : Int} (hlimit : 0 < limit) (clock : Rat)
    {events : List LimiterEvent}
    (htimely : (machine limit).Guarded (Timely limit) (initial clock) events) :
    (machine limit).Along (fun s => LimitKept limit s ∧ LiveHeld s ∧ RefundsOwn limit s ∧
      RetriesAdmitted limit s) (initial clock) events :=
  (machine limit).along_of_guarded (inOrder_step hlimit)
    (fun s hs => ⟨hs.limitKept, hs.liveHeld, refundsOwn limit s, hs.retriesAdmitted⟩)
    (inOrder_initial hlimit clock) htimely

/-- Two charges of a session with a limit of one: the second is refused, and admitted after a
minute. -/
def waitingRun : List LimiterEvent :=
  [.read "agent", .charge 0, .pass 20, .read "agent", .charge 1, .pass 40, .read "agent", .charge 2]

theorem waitingRun_kept :
    (machine 1).Along (fun s => LimitKept 1 s ∧ LiveHeld s ∧ RefundsOwn 1 s ∧
      RetriesAdmitted 1 s) (initial 0) waitingRun :=
  writeRate_runs (by decide) 0 (by decide +kernel)

/-- The charge that has read the clock first takes the lock last. -/
def overtakenRun : List LimiterEvent :=
  [.read "agent", .pass 1, .read "agent", .charge 1, .charge 0]

/-- With a limit of one both charges of the session are admitted within a second, and the file
has lost the later one. -/
theorem overtaken_charge_overruns :
    ((machine 1).run (initial 0) overtakenRun).isSome = true ∧
      ¬LimitKept 1 ((machine 1).endState (initial 0) overtakenRun) ∧
      ¬LiveHeld ((machine 1).endState (initial 0) overtakenRun) := by
  refine ⟨by decide +kernel, fun h => ?_, fun h => ?_⟩
  · exact absurd (h "agent" 0) (by decide +kernel)
  · exact absurd (h "agent" 1 (by decide +kernel)) (by decide +kernel)

end Limiter

end TrwMemory.Security
