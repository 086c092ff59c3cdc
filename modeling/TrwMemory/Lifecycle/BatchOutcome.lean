import Mathlib.Data.Rat.Defs
import TrwMemory.Lifecycle.BatchDedup

/-!
The outcome of `batch_dedup` for each entry it scans: kept as it grew, or set aside for an entry
that is kept. An entry is told by its id alone: what a list holds under one id in two namespaces
is one entry here.
-/
namespace TrwMemory.Lifecycle

open Library

/-- The version of an entry that a report leaves. -/
def BatchReport.after (report : BatchReport) (entry : MemoryEntry) : MemoryEntry :=
  (report.updatedEntries.find? fun updated => updated.id == entry.id).getD entry

/-- The changed entries and the unchanged ones are together the map. -/
theorem find_changedEntries {original updated : List (String × MemoryEntry)}
    (hdistinct : (Dict.keys updated).Nodup)
    (hkeyed : ∀ id c, Dict.get updated id = some c → c.id = id) {e c : MemoryEntry}
    (horiginal : Dict.get original e.id = some e) (hget : Dict.get updated e.id = some c) :
    ((changedEntries original updated).find? fun u => u.id == e.id).getD e = c := by
  have hentry : ∀ u ∈ changedEntries original updated, u.id = e.id →
      u = c ∧ Dict.get original e.id ≠ some u := by
    intro u hu heq
    obtain ⟨⟨id, v⟩, hmem, hsome⟩ := List.mem_filterMap.mp hu
    split at hsome
    · cases hsome
    · rename_i hchanged
      cases hsome
      have hu' := Dict.get_of_mem hdistinct hmem
      have hid : id = e.id := (hkeyed _ _ hu').symm.trans heq
      subst hid
      exact ⟨Option.some.inj (hu'.symm.trans hget), hchanged⟩
  cases hfind : (changedEntries original updated).find? fun u => u.id == e.id with
  | some u =>
      have hid : u.id = e.id := by simpa using List.find?_some hfind
      exact (hentry u (List.mem_of_find?_eq_some hfind) hid).1
  | none =>
      by_contra hne
      have hmem : c ∈ changedEntries original updated := by
        refine List.mem_filterMap.mpr ⟨(e.id, c), Dict.mem_of_get hget, ?_⟩
        rw [if_neg]
        rw [horiginal]
        exact fun heq => hne (Option.some.inj heq)
      have hnone := List.find?_eq_none.mp hfind c hmem
      exact hnone (beq_iff_eq.mpr (hkeyed _ _ hget))

theorem keys_entries (l : List MemoryEntry) :
    Dict.keys (l.map fun e => (e.id, e)) = l.map MemoryEntry.id := by
  rw [Dict.keys, List.map_map]
  rfl

theorem originalMap_of_nodup {l : List MemoryEntry} (hids : (l.map MemoryEntry.id).Nodup) :
    originalMap l = l.map fun e => (e.id, e) :=
  Dict.ofPairs_of_nodup (by rwa [keys_entries])

theorem get_originalMap {l : List MemoryEntry} (hids : (l.map MemoryEntry.id).Nodup)
    {e : MemoryEntry} (he : e ∈ l) : Dict.get (originalMap l) e.id = some e := by
  rw [originalMap_of_nodup hids]
  exact Dict.get_of_mem (by rwa [keys_entries]) (List.mem_map.mpr ⟨e, he, rfl⟩)

theorem keyed_originalMap {l : List MemoryEntry} {id : String} {c : MemoryEntry}
    (h : Dict.get (originalMap l) id = some c) : c.id = id := by
  obtain ⟨e, -, heq⟩ := List.mem_map.mp (Dict.mem_of_mem_ofPairs (Dict.mem_of_get h))
  cases heq
  rfl

section Outcome

variable {V S : Type} [LE S] {similarity : Similarity V S} {entries : List MemoryEntry}

/-- Nothing is set aside before the loops. -/
theorem settled_startOf {thresholds : S × S} {l : List (MemoryEntry × Option V)}
    (hl : l.map Prod.fst = onlyActive entries)
    (hids : ((onlyActive entries).map MemoryEntry.id).Nodup) (later : List String) :
    Settled similarity thresholds l later (startOf entries) where
  distinct := by
    rw [startOf, originalMap_of_nodup hids, keys_entries]
    exact hids
  keyed := fun _ _ => keyed_originalMap
  kept := fun p hp _ => by
    have hmem : p.1 ∈ onlyActive entries := hl ▸ List.mem_map.mpr ⟨p, hp, rfl⟩
    exact ⟨p.1, get_originalMap hids hmem, eq_of_beq (List.mem_filter.mp hmem).2,
      includes_refl _⟩
  setAside := fun _ _ hskip => nomatch hskip

variable [DecidableLE S] [OfScientific S] {clock : Nat → Datetime}
variable {embedder : Option (Embedder V S)} {config : DedupConfig S} {report : BatchReport}

/-- How a call completes: without a pass, or with the report of one. -/
theorem batchDedup_ok (hrun : batchDedup similarity clock entries embedder config = .ok report) :
    report.updatedEntries = [] ∨
      ∃ encoder ∈ embedder, ∃ pass,
        (batchVectors encoder entries).length = (onlyActive entries).length ∧
          scan similarity clock (validatedThresholds config encoder)
            ((onlyActive entries).zip (batchVectors encoder entries)) (startOf entries) = .ok pass ∧
          report = completedReport entries pass := by
  rw [batchDedup] at hrun
  split at hrun
  · cases hrun
    exact .inl rfl
  · split at hrun
    · cases hrun
      exact .inl rfl
    · rename_i encoder hembedder
      dsimp only at hrun
      split at hrun
      · cases hrun
      · rename_i hlength
        cases hscan : scan similarity clock (validatedThresholds config encoder)
            ((onlyActive entries).zip (batchVectors encoder entries)) (startOf entries) with
        | error err =>
            rw [hscan] at hrun
            cases hrun
        | ok pass =>
            rw [hscan] at hrun
            cases hrun
            exact .inr ⟨encoder, (Option.filter_eq_some_iff.mp hembedder).1, pass,
              not_not.mp hlength, hscan, rfl⟩

/-- An entry a completed pass scanned is active with all it had, or was set aside for another
that is active: as a duplicate, or after that one took its content. -/
theorem batchDedup_conserves (hids : ((onlyActive entries).map MemoryEntry.id).Nodup)
    (hrun : batchDedup similarity clock entries embedder config = .ok report)
    {e : MemoryEntry} (he : e ∈ onlyActive entries) :
    (report.after e).status = .active ∧ Includes e (report.after e) ∨
      ∃ encoder ∈ embedder, ∃ vector,
        ∃ q ∈ (onlyActive entries).zip (batchVectors encoder entries),
          (e, vector) ∈ (onlyActive entries).zip (batchVectors encoder entries) ∧
            q.1.id ≠ e.id ∧ (report.after q.1).status = .active ∧
            SetAside similarity (validatedThresholds config encoder) (e, vector) q
              (report.after q.1) (report.after e) := by
  rcases batchDedup_ok hrun with hnone | ⟨encoder, hencoder, pass, hlength, hscan, rfl⟩
  · rw [BatchReport.after, hnone]
    exact .inl ⟨eq_of_beq (List.mem_filter.mp he).2, includes_refl _⟩
  · have hl : ((onlyActive entries).zip (batchVectors encoder entries)).map Prod.fst =
        onlyActive entries := List.map_fst_zip (Nat.le_of_eq hlength.symm)
    have hids' : (((onlyActive entries).zip (batchVectors encoder entries)).map
        fun p => p.1.id).Nodup := by
      rwa [← hl, List.map_map] at hids
    have h := scan_settled hids' (List.Sublist.refl _) hscan (settled_startOf hl hids _)
    have hafter : ∀ e ∈ onlyActive entries, ∀ c, Dict.get pass.updatedMap e.id = some c →
        (completedReport entries pass).after e = c := fun e he c hc =>
      find_changedEntries h.distinct h.keyed (get_originalMap hids he) hc
    obtain ⟨p, hp, rfl⟩ : ∃ p ∈ (onlyActive entries).zip (batchVectors encoder entries),
        p.1 = e := by
      rw [← List.mem_map, hl]
      exact he
    by_cases hskip : p.1.id ∈ pass.skippedIds
    · obtain ⟨q, hq, hkept, -, hne, survivor, dropped, hc, hdropped, haside⟩ :=
        h.setAside p hp hskip
      obtain ⟨c, hc', hstatus, -⟩ := h.kept q hq hkept
      have hsame : c = survivor := Option.some.inj (hc'.symm.trans hc)
      subst hsame
      have hqmem : q.1 ∈ onlyActive entries := hl ▸ List.mem_map.mpr ⟨q, hq, rfl⟩
      rw [hafter p.1 he _ hdropped]
      refine .inr ⟨encoder, hencoder, p.2, q, hq, hp, hne, ?_, ?_⟩
      · rw [hafter q.1 hqmem _ hc]
        exact hstatus
      · rw [hafter q.1 hqmem _ hc]
        exact haside
    · obtain ⟨c, hc, hstatus, hincl⟩ := h.kept p hp hskip
      rw [hafter p.1 he _ hc]
      exact .inl ⟨hstatus, hincl⟩

end Outcome

def alike (sim : Rat) : Similarity Unit Rat where
  cosine := fun _ _ => some sim
  text := fun _ => "0.900"

def unitEncoder : Embedder Unit Rat where
  available := true
  embedBatch := fun texts => texts.map fun _ => some ()
  calibratedThreshold := id

def stored (id ns : String) (tags : List String) (h : id ≠ "") : MemoryEntry :=
  { MemoryEntry.ofDefaults id "x" ns ⟨0, some 0⟩ h with tags := tags }

/-- The pass over entries that are all `sim` alike. -/
def passOver (sim : Rat) (entries : List MemoryEntry) : Except DedupError BatchReport :=
  batchDedup (alike sim) (fun _ => ⟨0, some 0⟩) entries (some unitEncoder) ⟨0.95, 0.85⟩

/-- The versions that a pass leaves of its entries. -/
def leftBy (sim : Rat) (entries : List MemoryEntry) : Option (List MemoryEntry) :=
  (passOver sim entries).toOption.map fun report => entries.map report.after

/-- A duplicate is set aside and gives nothing to the entry that stays, an entry is merged into
one of another namespace, and under one id nothing stays active. -/
theorem batchDedup_not_lossless :
    (leftBy 1 [stored "a" "m" [] (by decide), stored "b" "m" ["t"] (by decide)]).map
        (·.map fun e => (e.status, e.ns, e.tags)) =
      some [(.active, "m", []), (.obsolete, "m", ["t"])] ∧
    (leftBy 0.9 [stored "a" "m" [] (by decide), stored "b" "n" ["t"] (by decide)]).map
        (·.map fun e => (e.status, e.ns, e.tags)) =
      some [(.active, "m", ["t"]), (.obsolete, "n", ["t"])] ∧
    (leftBy 0.9 [stored "a" "m" [] (by decide), stored "a" "n" ["t"] (by decide)]).map
        (·.map fun e => e.status) =
      some [.obsolete, .obsolete] := by
  decide +kernel

/-- A pass over two entries that completes. -/
theorem batchDedup_conserves_pair :
    ∃ report,
      passOver 0.9 [stored "a" "m" [] (by decide), stored "b" "m" ["t"] (by decide)] =
          .ok report ∧
        ∀ e ∈ onlyActive [stored "a" "m" [] (by decide), stored "b" "m" ["t"] (by decide)],
          (report.after e).status = .active ∨
            ∃ t, t.id ≠ e.id ∧ (report.after t).status = .active := by
  have hok : (passOver 0.9
      [stored "a" "m" [] (by decide), stored "b" "m" ["t"] (by decide)]).isOk = true := by
    decide +kernel
  cases hrun : passOver 0.9
      [stored "a" "m" [] (by decide), stored "b" "m" ["t"] (by decide)] with
  | error err =>
      rw [hrun] at hok
      cases hok
  | ok report =>
      refine ⟨report, rfl, fun e he => ?_⟩
      rcases batchDedup_conserves (by decide) hrun he with ⟨h, -⟩ | h
      · exact .inl h
      · obtain ⟨-, -, -, q, -, -, hne, hactive, -⟩ := h
        exact .inr ⟨q.1, hne, hactive⟩

end TrwMemory.Lifecycle
