import TrwMemory.Storage.CodecRoundTrips
import TrwMemory.Sync.Subscriber

/-!
Runs of the subscriber. Where every handler that is called under an id completes, and no event
arrives without a line that an event cut off before it left pending, the id that a reconnect
sends is that of an event up to which every event was handled.

The id is taken before the handler is called, so a handler that fails is skipped.
-/
namespace TrwMemory.Sync

open Library Library.Transition Storage Codec

theorem fieldOf_append (field text : String) : fieldOf field (field ++ text) = some text := by
  have hpart : field.toList.isPrefixOf (field ++ text).toList = true := by
    rw [String.toList_append, List.isPrefixOf_iff_prefix]
    exact List.prefix_append _ _
  rw [fieldOf, if_pos hpart, String.toList_append, List.drop_left, String.ofList_toList]

theorem fieldOf_other {field line : String} (h : field.toList.head? ≠ line.toList.head?)
    (hne : field.toList ≠ []) : fieldOf field line = none := by
  refine if_neg fun hpart => h ?_
  obtain ⟨rest, hrest⟩ := List.isPrefixOf_iff_prefix.mp hpart
  rw [← hrest, List.head?_append_of_ne_nil _ hne]

section Lines

variable (py : Python) (handling : Handling) (s : Subscriber)

theorem processLine_id (text : String) :
    processLine py s ("id:" ++ text) =
      ({ s with pendingEventId := nonempty (pyStrip text) }, .quiet) := by
  rw [processLine, fieldOf_append]

theorem processLine_event (text : String) :
    processLine py s ("event:" ++ text) =
      ({ s with pendingEventType := nonempty (pyStrip text) }, .quiet) := by
  rw [processLine, fieldOf_other (by simp) (by simp), fieldOf_append]

theorem processLine_data (text : String) :
    processLine py s ("data:" ++ text) =
      match nonempty (pyStrip text) with
      | some text => processData py s text
      | none => (s, .quiet) := by
  rw [processLine, fieldOf_other (by simp) (by simp), fieldOf_other (by simp) (by simp),
    fieldOf_append]
  rfl

/-- The fields after the lines before the payload. -/
def Subscriber.afterHeader (s : Subscriber) (f : Frame) : Subscriber where
  lastEventId := s.lastEventId
  pendingEventId := (f.id.map fun text => nonempty (pyStrip text)).getD s.pendingEventId
  pendingEventType := (f.type.map fun text => nonempty (pyStrip text)).getD s.pendingEventType

theorem processLines_header (f : Frame) (rest : List String) :
    processLines py handling s (f.header ++ rest) =
      processLines py handling (s.afterHeader f) rest := by
  obtain ⟨id, type, data⟩ := f
  cases id with
  | none =>
      cases type with
      | none => rfl
      | some type =>
          simp only [Frame.header, Option.map_none, Option.toList_none, Option.map_some,
            Option.toList_some, List.nil_append, List.singleton_append, processLines,
            processLine_event]
          rfl
  | some id =>
      cases type with
      | none =>
          simp only [Frame.header, Option.map_none, Option.toList_none, Option.map_some,
            Option.toList_some, List.append_nil, List.singleton_append, processLines,
            processLine_id]
          rfl
      | some type =>
          simp only [Frame.header, Option.map_some, Option.toList_some, List.cons_append,
            List.nil_append, processLines, processLine_id, processLine_event]
          rfl

/-- The lines before a payload leave the last id alone, also where they are cut off. -/
theorem lastEventId_cut (f : Frame) (n : Nat) :
    (processLines py handling s (f.header.take n)).1.lastEventId = s.lastEventId := by
  have hlines : ∀ line ∈ f.header.take n,
      ∃ text, line = "id:" ++ text ∨ line = "event:" ++ text := by
    intro line hline
    have hmem := List.mem_of_mem_take hline
    simp only [Frame.header, List.mem_append, Option.mem_toList,
      Option.map_eq_some_iff] at hmem
    obtain ⟨text, -, rfl⟩ | ⟨text, -, rfl⟩ := hmem
    · exact ⟨text, .inl rfl⟩
    · exact ⟨text, .inr rfl⟩
  generalize f.header.take n = lines at hlines ⊢
  induction lines generalizing s with
  | nil => rfl
  | cons line lines ih =>
      rw [List.forall_mem_cons] at hlines
      obtain ⟨⟨text, rfl | rfl⟩, hrest⟩ := hlines
      · rw [processLines, processLine_id]
        exact ih _ hrest
      · rw [processLines, processLine_event]
        exact ih _ hrest

end Lines

/-- Nothing is pending that the event does not set itself. -/
def Clean (s : Subscriber) (f : Frame) : Prop :=
  (f.id.isSome = true ∨ s.pendingEventId = none) ∧
    (f.type.isSome = true ∨ s.pendingEventType = none)

instance (s : Subscriber) (f : Frame) : Decidable (Clean s f) :=
  inferInstanceAs (Decidable (_ ∧ _))

theorem afterHeader_clean {s : Subscriber} {f : Frame} (h : Clean s f) :
    s.afterHeader f =
      { lastEventId := s.lastEventId
        pendingEventId := f.eventId
        pendingEventType := f.type.bind fun text => nonempty (pyStrip text) } := by
  obtain ⟨id, type, data⟩ := f
  obtain ⟨hid, htype⟩ := h
  rw [Subscriber.afterHeader, Frame.eventId]
  congr 1
  · cases id with
    | none => exact hid.resolve_left (by simp)
    | some id => rfl
  · cases type with
    | none => exact htype.resolve_left (by simp)
    | some type => rfl

/-- How a call of the handler leaves the connection. -/
def Handling.ending : Handling → Ending
  | completes | swallowed => .open
  | disconnects => .disconnected
  | kills => .killed

section Events

variable {py : Python} {s : Subscriber} {f : Frame}

theorem processLines_blank (py : Python) (handling : Handling) (s : Subscriber) :
    processLines py handling s [""] = (s, false, .open) := by
  have hid : fieldOf "id:" "" = none := fieldOf_other (by simp) (by simp)
  have hevent : fieldOf "event:" "" = none := fieldOf_other (by simp) (by simp)
  have hdata : fieldOf "data:" "" = none := fieldOf_other (by simp) (by simp)
  simp [processLines, processLine, hid, hevent, hdata]

/-- An event that has to be handled is dispatched, under its own id. -/
theorem frame_wanted (handling : Handling) (hclean : Clean s f) (hwanted : f.wanted py = true) :
    ∃ s', processLines py handling s f.lines =
        (s', decide (handling = .completes), handling.ending) ∧
      s'.lastEventId = f.eventId.or s.lastEventId := by
  rw [Frame.wanted] at hwanted
  rw [Frame.lines, processLines_header, afterHeader_clean hclean, processLines, processLine_data]
  cases htext : nonempty (pyStrip f.data) with
  | none =>
      rw [htext] at hwanted
      cases hwanted
  | some text =>
      rw [htext, Option.map_some] at hwanted
      dsimp only at hwanted ⊢
      rw [processData]
      split at hwanted
      · rename_i hload
        rw [Option.some.inj hload]
        dsimp only at hwanted ⊢
        split at hwanted
        · rename_i htype
          rw [htype]
          dsimp only
          rw [if_pos hwanted]
          cases handling <;> simp [processLines_blank, Handling.ending]
        · cases hwanted
      · cases hwanted

/-- Any other event is passed over. -/
theorem frame_unwanted (handling : Handling) (hclean : Clean s f) (hwanted : f.wanted py = false) :
    (processLines py handling s f.lines).1.lastEventId = s.lastEventId ∧
      (processLines py handling s f.lines).2.1 = false := by
  rw [Frame.wanted] at hwanted
  rw [Frame.lines, processLines_header, afterHeader_clean hclean, processLines, processLine_data]
  cases htext : nonempty (pyStrip f.data) with
  | none =>
      dsimp only
      rw [processLines_blank]
      exact ⟨rfl, rfl⟩
  | some text =>
      rw [htext, Option.map_some] at hwanted
      dsimp only at hwanted ⊢
      rw [processData]
      cases hload : py.loads text with
      | error error => cases error <;> simp [processLines_blank]
      | ok v =>
          rw [hload] at hwanted
          cases v with
          | obj data =>
              dsimp only at hwanted ⊢
              cases htype : eventType py (f.type.bind fun text => nonempty (pyStrip text)) data with
              | error error => simp
              | ok type =>
                  rw [htype] at hwanted
                  dsimp only at hwanted ⊢
                  rw [if_neg (by rw [hwanted]; decide)]
                  simp [processLines_blank]
          | null | bool _ | int _ | float _ | str _ | arr _ => simp [processLines_blank]

end Events

section Runs

variable (py : Python) (stream : EventStream)

/-- Every event before a place of the stream was handled, of those that have to be. -/
def Covered (s : Listening) (i : Nat) : Prop :=
  ∀ j < i, ∀ f, stream.frames[j]? = some f → f.wanted py = true → j ∈ s.handled

/-- The id that the next connect sends is that of an event up to which all were handled. -/
def NeverSkips (s : Listening) : Prop :=
  s.alive = true → ∀ c, s.subscriber.header = some c →
    ∃ i f, stream.frames[i]? = some f ∧ f.eventId = some c ∧ Covered py stream s (i + 1)

/-- No handler that is called under an id fails, none is taken for a bad payload, and no
event arrives without a line that is pending. -/
def Gentle (s : Listening) : StreamEvent → Prop
  | .frame handling =>
      ∀ f ∈ s.next.bind fun i => stream.frames[i]?,
        Clean s.subscriber f ∧
          (f.wanted py = true → handling = .completes ∨ handling = .kills ∨
            handling = .disconnects ∧ f.eventId = none)
  | .connect | .cut _ | .disconnect => True

instance (s : Listening) (event : StreamEvent) : Decidable (Gentle py stream s event) := by
  cases event <;> unfold Gentle <;> infer_instance

/-- What the open connection delivers next follows what was handled. -/
structure Handles (s : Listening) : Prop where
  covered : ∀ i, s.next = some i → s.alive = true ∧ Covered py stream s i
  named : s.alive = true → ∀ c, s.subscriber.lastEventId = some c →
    ∃ i f, stream.frames[i]? = some f ∧ f.eventId = some c ∧ Covered py stream s (i + 1)

variable {py stream}

theorem nonempty_eq_some {text c : String} (h : nonempty text = some c) : nonempty c = some c := by
  rw [nonempty] at h
  split at h
  · cases h
  · rw [← Option.some.inj h, nonempty, if_neg (by assumption)]

theorem eventId_nonempty {f : Frame} {c : String} (h : f.eventId = some c) :
    nonempty c = some c := by
  obtain ⟨text, -, htext⟩ := Option.bind_eq_some_iff.mp h
  exact nonempty_eq_some htext

/-- The server begins after the event of the id. -/
theorem resume_eq {i : Nat} {f : Frame} {c : String} (hf : stream.frames[i]? = some f)
    (hc : f.eventId = some c) : resume stream.frames (some c) = i + 1 := by
  rw [resume]
  cases hfind : stream.frames.findIdx? fun f => f.eventId = some c with
  | none =>
      have habsent := List.findIdx?_eq_none_iff.mp hfind f (List.mem_of_getElem? hf)
      simp [hc] at habsent
  | some j =>
      obtain ⟨hj, hfound, -⟩ := List.findIdx?_eq_some_iff_getElem.mp hfind
      have hat : stream.frames[j]?.bind Frame.eventId = some c := by
        rw [List.getElem?_eq_getElem hj, Option.bind_some]
        exact of_decide_eq_true hfound
      have hsame := stream.distinct i j c (by rw [hf]; exact hc) hat
      rw [hsame]

theorem covered_zero (s : Listening) : Covered py stream s 0 := fun _ hj => absurd hj (by omega)

theorem Covered.mono {s t : Listening} {i : Nat} (h : Covered py stream s i)
    (hsub : ∀ j ∈ s.handled, j ∈ t.handled) : Covered py stream t i :=
  fun j hj f hf hwanted => hsub j (h j hj f hf hwanted)

theorem Covered.succ {s : Listening} {i : Nat} {f : Frame} (h : Covered py stream s i)
    (hf : stream.frames[i]? = some f) (hdone : f.wanted py = true → i ∈ s.handled) :
    Covered py stream s (i + 1) := by
  intro j hj g hg hwanted
  rcases Nat.lt_succ_iff_lt_or_eq.mp hj with hlt | rfl
  · exact h j hlt g hg hwanted
  · rw [Option.some.inj (hf.symm.trans hg)] at hdone
    exact hdone hwanted

theorem handles_initial : Handles py stream Listening.initial where
  covered := fun _ h => by cases h
  named := fun _ _ h => by cases h

/-- A connection that ends leaves the rest as it was. -/
theorem Handles.closed {s t : Listening} (h : Handles py stream s)
    (hlast : t.subscriber.lastEventId = s.subscriber.lastEventId) (hnext : t.next = none)
    (hhandled : t.handled = s.handled) (halive : t.alive = s.alive) : Handles py stream t where
  covered := fun i hi => by
    rw [hnext] at hi
    cases hi
  named := fun ht c hc => by
    obtain ⟨i, f, hf, hid, hcovered⟩ := h.named (halive ▸ ht) c (hlast ▸ hc)
    exact ⟨i, f, hf, hid, hcovered.mono fun j hj => hhandled ▸ hj⟩

theorem handles_connect {s t : Listening} (h : Handles py stream s)
    (hstep : listen py stream s .connect = some t) : Handles py stream t := by
  rw [listen] at hstep
  split at hstep
  · rename_i halive hnext
    obtain rfl := Option.some.inj hstep
    refine ⟨fun i hi => ⟨halive, ?_⟩, h.named⟩
    obtain rfl := Option.some.inj hi
    cases hlast : s.subscriber.lastEventId with
    | none =>
        have hheader : s.subscriber.header = none := by rw [Subscriber.header, hlast]; rfl
        rw [hheader]
        exact covered_zero _
    | some c =>
        obtain ⟨j, f, hf, hid, hcovered⟩ := h.named halive c hlast
        have hheader : s.subscriber.header = some c := by
          rw [Subscriber.header, hlast]
          exact eventId_nonempty hid
        rw [hheader, resume_eq hf hid]
        exact hcovered
  · cases hstep

theorem handles_frame {s t : Listening} {handling : Handling} (h : Handles py stream s)
    (hgentle : Gentle py stream s (.frame handling))
    (hstep : listen py stream s (.frame handling) = some t) : Handles py stream t := by
  rw [listen] at hstep
  obtain ⟨i, hi, hstep⟩ := Option.bind_eq_some_iff.mp hstep
  obtain ⟨f, hf, hstep⟩ := Option.bind_eq_some_iff.mp hstep
  obtain ⟨hclean, hhandling⟩ := hgentle f (Option.bind_eq_some_iff.mpr ⟨i, hi, hf⟩)
  obtain ⟨halive, hcovered⟩ := h.covered i hi
  cases hwanted : f.wanted py with
  | false =>
      obtain ⟨hlast, hdone⟩ := frame_unwanted handling hclean hwanted
      generalize processLines py handling s.subscriber f.lines = processed at hstep hlast hdone
      obtain ⟨subscriber, done, ending⟩ := processed
      obtain rfl := hdone
      obtain rfl := Option.some.inj hstep
      refine ⟨fun j hj => ?_, fun _ c hc => h.named halive c (hlast ▸ hc)⟩
      cases ending with
      | «open» =>
          obtain rfl := Option.some.inj hj
          refine ⟨rfl, ?_⟩
          exact hcovered.succ hf fun hyes => by rw [hwanted] at hyes; cases hyes
      | disconnected | killed => cases hj
  | true =>
      obtain ⟨subscriber, hlines, hlast⟩ := frame_wanted handling hclean hwanted
      rw [hlines] at hstep
      obtain rfl := Option.some.inj hstep
      obtain rfl | rfl | ⟨rfl, hnone⟩ := hhandling hwanted
      · have hdone : Covered py stream { s with handled := i :: s.handled } (i + 1) :=
          Covered.succ (hcovered.mono fun j hj => List.mem_cons_of_mem i hj) hf
            fun _ => List.mem_cons_self
        refine ⟨fun j hj => ?_, fun _ c hc => ?_⟩
        · obtain rfl := Option.some.inj hj
          exact ⟨rfl, hdone⟩
        · rw [hlast] at hc
          cases hid : f.eventId with
          | some c' =>
              rw [hid] at hc
              exact ⟨i, f, hf, hid.trans hc, hdone⟩
          | none =>
              rw [hid, Option.none_or] at hc
              obtain ⟨j, g, hg, hgid, hbefore⟩ := h.named halive c hc
              exact ⟨j, g, hg, hgid, hbefore.mono fun k hk => List.mem_cons_of_mem i hk⟩
      · exact ⟨fun j hj => (by cases hj), fun hdead => (by cases hdead)⟩
      · refine ⟨fun j hj => (by cases hj), fun _ c hc => ?_⟩
        rw [hlast, hnone, Option.none_or] at hc
        exact h.named halive c hc

theorem handles_step : (listener py stream).Preserves (Gentle py stream) (Handles py stream) := by
  intro s event t h hgentle hstep
  cases event with
  | connect => exact handles_connect h hstep
  | frame handling => exact handles_frame h hgentle hstep
  | cut lines =>
      obtain ⟨i, hi, hstep⟩ := Option.bind_eq_some_iff.mp hstep
      obtain ⟨f, hf, hstep⟩ := Option.bind_eq_some_iff.mp hstep
      obtain rfl := Option.some.inj hstep
      exact h.closed (lastEventId_cut py .completes s.subscriber f lines) rfl rfl rfl
  | disconnect =>
      simp only [listener, listen] at hstep
      split at hstep
      · obtain rfl := Option.some.inj hstep
        exact h.closed rfl rfl rfl rfl
      · cases hstep

/-- Whatever was received, the next connect asks for what follows events that were all handled,
and so does an open connection deliver. -/
theorem subscriber_neverSkips {run : List StreamEvent} {s : Listening}
    (hgentle : (listener py stream).Guarded (Gentle py stream) Listening.initial run)
    (hrun : (listener py stream).run Listening.initial run = some s) :
    NeverSkips py stream s ∧ ∀ i, s.next = some i → Covered py stream s i := by
  have h := (listener py stream).run_preserves handles_step handles_initial hgentle hrun
  refine ⟨fun halive c hc => ?_, fun i hi => (h.covered i hi).2⟩
  obtain ⟨last, hlast, hnonempty⟩ := Option.bind_eq_some_iff.mp hc
  obtain ⟨i, f, hf, hid, hcovered⟩ := h.named halive last hlast
  rw [eventId_nonempty hid] at hnonempty
  exact ⟨i, f, hf, hid.trans hnonempty, hcovered⟩

end Runs

def publishedFrame : Frame where
  id := some "1"
  type := none
  data := Json.dumps (.obj [("type", .str "learning_published")])

/-- One event. -/
def publishedStream : EventStream where
  frames := [publishedFrame]
  distinct := by
    intro i j c hi hj
    match i, j with
    | 0, 0 => rfl
    | 0, j + 1 => simp at hj
    | i + 1, _ => simp at hi

/-- The handler of the event fails, and the next connect asks for what follows it. -/
theorem failed_handler_skipped :
    ∃ s, (listener (reading plainPython) publishedStream).run Listening.initial
        [.connect, .frame .disconnects] = some s ∧
      ¬NeverSkips (reading plainPython) publishedStream s := by
  have hrun : (listener (reading plainPython) publishedStream).run Listening.initial
      [.connect, .frame .disconnects] = some ⟨⟨some "1", none, none⟩, none, [], true⟩ := by
    decide +kernel
  refine ⟨_, hrun, fun hskips => ?_⟩
  obtain ⟨i, f, hf, -, hcovered⟩ := hskips rfl "1" (by decide)
  match i with
  | 0 => cases hcovered 0 (by omega) publishedFrame rfl (by decide +kernel)
  | i + 1 => simp [publishedStream] at hf

/-- A connection ends within the event, and in the next one it is handled. -/
theorem subscriber_neverSkips_published :
    NeverSkips (reading plainPython) publishedStream
        ⟨⟨some "1", none, none⟩, some 1, [0], true⟩ ∧
      ∀ i, some 1 = some i → Covered (reading plainPython) publishedStream
        ⟨⟨some "1", none, none⟩, some 1, [0], true⟩ i := by
  have hgentle : (listener (reading plainPython) publishedStream).Guarded
      (Gentle (reading plainPython) publishedStream) Listening.initial
      [.connect, .cut 1, .connect, .frame .completes] := by
    decide +kernel
  have hrun : (listener (reading plainPython) publishedStream).run Listening.initial
      [.connect, .cut 1, .connect, .frame .completes] =
        some ⟨⟨some "1", none, none⟩, some 1, [0], true⟩ := by
    decide +kernel
  exact subscriber_neverSkips hgentle hrun

end TrwMemory.Sync
