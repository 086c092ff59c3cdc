import TrwMemory.Library.Verdicts
import TrwMemory.Storage.CodecRoundTrips
import TrwMemory.Storage.YamlBackend

/-!
What is read of the files of a YAML store, and which writes leave the entries of other
namespaces as they were. The namespace of a file is what its document says, whenever it is
read.

Which calls of the YAML store leave the entries of other namespaces alone. A delete and the
access counts ask for the namespace of the file that they touch; a store and an update write
over it, and the deletion of a namespace removes the files that its rows' ids name.
-/
namespace TrwMemory.Codec

open Library Storage Sync

/-- The namespace of an entry is what its document says. -/
theorem dictToEntry_ns (py : Python) (pydantic : Pydantic) (data : Document) (now : Datetime) :
    Yields (dictToEntry py data pydantic now) fun row =>
      strUnder py data .ns "default" = .ok row.entry.ns := by
  refine .bind fun createdAt _ => ?_
  refine .bind fun updatedAt _ => ?_
  refine .bind fun lastAccessedAt _ => ?_
  refine .bind fun statusText _ => ?_
  refine .bind fun consolidatedInto _ => ?_
  refine .bind fun anchors _ => ?_
  refine .bind fun assertions _ => ?_
  refine .bind fun id _ => ?_
  refine .bind fun content _ => ?_
  refine .bind fun detail _ => ?_
  refine .bind fun tags _ => ?_
  refine .bind fun evidence _ => ?_
  refine .bind fun importance _ => ?_
  refine .bind fun recurrence _ => ?_
  refine .bind fun ns hns => ?_
  refine .bind fun accessCount _ => ?_
  refine .bind fun sessionCount _ => ?_
  refine .bind fun source _ => ?_
  refine .bind fun sourceIdentity _ => ?_
  refine .bind fun clientProfile _ => ?_
  refine .bind fun modelId _ => ?_
  refine .bind fun mergedFrom _ => ?_
  refine .bind fun consolidatedFrom _ => ?_
  refine .bind fun metadata _ => ?_
  refine .bind fun vectorClock _ => ?_
  refine .bind fun remoteId _ => ?_
  refine .bind fun outcomeHistory _ => ?_
  refine .bind fun validFrom _ => ?_
  refine .bind fun invalidFrom _ => ?_
  refine .bind fun invalidatedBy _ => ?_
  refine .bind fun anchorValidity _ => ?_
  refine .bind fun verificationCheckedAt _ => ?_
  refine .bind fun typeText _ => ?_
  refine .bind fun nudgeLine _ => ?_
  refine .bind fun expires _ => ?_
  refine .bind fun confidenceText _ => ?_
  refine .bind fun evidenceText _ => ?_
  refine .bind fun taskType _ => ?_
  refine .bind fun domain _ => ?_
  refine .bind fun phaseOrigin _ => ?_
  refine .bind fun phaseAffinity _ => ?_
  refine .bind fun teamOrigin _ => ?_
  refine .bind fun tierText _ => ?_
  refine .bind fun syncHash _ => ?_
  refine .bind fun syncSeq _ => ?_
  refine .bind fun lastSyncedAt _ => ?_
  refine .bind fun entry hentry => ?_
  intro row hrow
  obtain rfl := Except.ok.inj hrow
  have hbuilt := elim_eq_ok hentry
  simp only [Option.bind_eq_bind, Option.bind_eq_some_iff] at hbuilt
  obtain ⟨_, -, _, -, _, -, _, -, hbuilt⟩ := hbuilt
  obtain ⟨base, rfl⟩ := construct_eq_some hbuilt
  exact hns

namespace YamlBackend

variable (b : YamlBackend)

/-- The namespace that a file's document says. -/
def fileNs : YamlFile → Option String
  | .unreadable => none
  | .document data => (strUnder b.py data .ns "default").toOption

theorem readFile_ns {now : Datetime} {file : YamlFile} {row : ParsedRow}
    (h : b.readFile now file = .ok row) : b.fileNs file = some row.entry.ns := by
  cases file with
  | unreadable => cases h
  | document data =>
      rw [readFile, readRow] at h
      cases hrow : dictToEntry b.py data b.pydantic now with
      | error error =>
          rw [hrow] at h
          cases h
      | ok parsed =>
          rw [hrow] at h
          obtain rfl := Except.ok.inj h
          rw [fileNs, dictToEntry_ns b.py b.pydantic data now parsed hrow]
          rfl

/-- What is read of a file. -/
def entryAt (now : Datetime) (dir : Directory) (stem : String) : Option MemoryEntry :=
  ((dir.find stem).bind fun file => (b.readFile now file).toOption).map fun row =>
    servedView row.entry

theorem entryAt_eq_some {now : Datetime} {dir : Directory} {stem : String} {e : MemoryEntry}
    (h : b.entryAt now dir stem = some e) :
    ∃ file row, dir.find stem = some file ∧ b.readFile now file = .ok row ∧
      e = servedView row.entry := by
  rw [entryAt, Option.map_eq_some_iff] at h
  obtain ⟨row, hrow, he⟩ := h
  obtain ⟨file, hfile, hread⟩ := Option.bind_eq_some_iff.mp hrow
  refine ⟨file, row, hfile, ?_, he.symm⟩
  cases hok : b.readFile now file with
  | error error =>
      rw [hok] at hread
      cases hread
  | ok found =>
      rw [hok] at hread
      rw [Option.some.inj hread]

theorem entryAt_ns {now : Datetime} {dir : Directory} {stem : String} {e : MemoryEntry}
    {file : YamlFile} (hfile : dir.find stem = some file) (h : b.entryAt now dir stem = some e) :
    b.fileNs file = some e.ns := by
  obtain ⟨found, row, hfound, hrow, rfl⟩ := b.entryAt_eq_some h
  obtain rfl := Option.some.inj (hfile.symm.trans hfound)
  rw [servedView_ns]
  exact b.readFile_ns hrow

variable {b} in
theorem locateScoped_eq_some_iff {now : Datetime} {dir : Directory} {id ns : String}
    {e : MemoryEntry} :
    b.locateScoped now dir id ns = .ok (some e) ↔
      isPlainId id = true ∧ b.entryAt now dir id = some e ∧ e.ns = ns := by
  rw [locateScoped, locateUnscoped, entryAt]
  cases isPlainId id with
  | false => simp [Except.map]
  | true =>
      cases dir.find id with
      | none => simp [Except.map]
      | some file =>
          simp only [if_true, Option.bind_some, true_and]
          cases b.readFile now file with
          | error error => simp [Except.map, Except.toOption]
          | ok row =>
              simp only [Except.map, Except.toOption, Except.ok.injEq, Option.map_some]
              constructor
              · intro h
                obtain ⟨raw, hraw, rfl⟩ := Option.map_eq_some_iff.mp h
                obtain ⟨hsame, hns⟩ := Option.filter_eq_some_iff.mp hraw
                obtain rfl := Option.some.inj hsame
                exact ⟨rfl, (servedView_ns _).trans (of_decide_eq_true hns)⟩
              · rintro ⟨hsame, hns⟩
                rw [← Option.some.inj hsame, servedView_ns] at hns
                rw [Option.filter_some, if_pos (decide_eq_true hns)]
                exact hsame

variable {b} in
/-- `get` serves what is located and not blocked. -/
theorem get_eq_some_iff {now : Datetime} {dir : Directory} {id ns : String} {e : MemoryEntry} :
    b.get now dir id ns = .ok (some e) ↔
      b.locateScoped now dir id ns = .ok (some e) ∧ b.blocks e = false := by
  rw [get]
  cases b.locateScoped now dir id ns with
  | error error => simp [Except.map]
  | ok found => simp [Except.map, Option.filter_eq_some_iff]

/-- Every entry of another namespace is read as before, whenever that is. -/
def Isolated (ns : String) (dir dir' : Directory) : Prop :=
  ∀ now stem e, b.entryAt now dir stem = some e → e.ns ≠ ns → b.entryAt now dir' stem = some e

/-- A file that at some time reads as an entry of another namespace. -/
def Foreign (ns : String) (dir : Directory) (stem : String) : Prop :=
  ∃ now e, b.entryAt now dir stem = some e ∧ e.ns ≠ ns

theorem Isolated.refl (ns : String) (dir : Directory) : b.Isolated ns dir dir :=
  fun _ _ _ h _ => h

variable {b}

theorem Isolated.trans {ns : String} {dir dir' dir'' : Directory} (h : b.Isolated ns dir dir')
    (h' : b.Isolated ns dir' dir'') : b.Isolated ns dir dir'' :=
  fun now stem e he hne => h' now stem e (h now stem e he hne) hne

theorem isolated_of_find {ns : String} {dir dir' : Directory}
    (h : ∀ stem, b.Foreign ns dir stem → dir'.find stem = dir.find stem) :
    b.Isolated ns dir dir' := by
  intro now stem e he hne
  rw [entryAt, h stem ⟨now, e, he, hne⟩]
  exact he

/-- An entry that `get` serves another namespace is served after the call. -/
theorem Isolated.get {ns : String} {dir dir' : Directory} (h : b.Isolated ns dir dir')
    {now : Datetime} {id other : String} {e : MemoryEntry} (hother : other ≠ ns)
    (hget : b.get now dir id other = .ok (some e)) : b.get now dir' id other = .ok (some e) := by
  obtain ⟨hlocated, hblocks⟩ := get_eq_some_iff.mp hget
  obtain ⟨hid, he, rfl⟩ := locateScoped_eq_some_iff.mp hlocated
  exact get_eq_some_iff.mpr
    ⟨locateScoped_eq_some_iff.mpr ⟨hid, h now id e he hother, rfl⟩, hblocks⟩

/-- A file that read as an entry of the namespace is not foreign. -/
theorem not_foreign {ns : String} {dir : Directory} {stem : String} {file : YamlFile}
    (hfile : dir.find stem = some file) (h : b.fileNs file = some ns) : ¬b.Foreign ns dir stem := by
  rintro ⟨now, e, he, hne⟩
  exact hne (Option.some.inj ((b.entryAt_ns hfile he).symm.trans h))

/-- A document of the namespace over a file. -/
theorem isolated_put_iff {ns : String} {dir : Directory} {stem : String} {data : Document}
    (h : b.fileNs (.document data) = some ns) :
    b.Isolated ns dir (dir.put stem (.document data)) ↔ ¬b.Foreign ns dir stem := by
  constructor
  · rintro hisolated ⟨now, e, he, hne⟩
    have hkept := b.entryAt_ns (dir.find_put_self stem _) (hisolated now stem e he hne)
    exact hne (Option.some.inj (hkept.symm.trans h))
  · intro hforeign
    refine isolated_of_find fun other hother => dir.find_put_of_ne _ ?_
    rintro rfl
    exact hforeign hother

theorem isolated_discard_iff {ns : String} {dir : Directory} {p : String → Bool} :
    b.Isolated ns dir (dir.discard p) ↔ ∀ stem, p stem = true → ¬b.Foreign ns dir stem := by
  constructor
  · rintro hisolated stem hp ⟨now, e, he, hne⟩
    have hkept := hisolated now stem e he hne
    rw [entryAt, Keyed.Table.find_discard, if_pos hp] at hkept
    cases hkept
  · intro h
    refine isolated_of_find fun stem hstem => ?_
    rw [Keyed.Table.find_discard, if_neg fun hp => h stem hp hstem]

end YamlBackend

namespace YamlBackend

variable {b : YamlBackend}

theorem updatedDocument_ns {now : Datetime} {row : ParsedRow} {ns : String} {fields : Patch}
    {data : Document} (h : b.updatedDocument now row ns fields = .ok data) :
    b.fileNs (.document data) = some ns := by
  rw [updatedDocument] at h
  split at h
  · cases h
  · obtain ⟨_, -, hrest⟩ := bind_eq_ok h
    obtain ⟨metadata, -, hrest⟩ := bind_eq_ok hrest
    obtain ⟨vectorClock, -, hdata⟩ := bind_eq_ok hrest
    have hns : data .ns = some (.str ns) := by
      rw [← Except.ok.inj hdata]
      cases namesSync fields <;> rfl
    rw [fileNs, strUnder, hns]
    rfl

theorem written_ns {now : Datetime} {dir : Directory} {id ns : String} {fields : Patch}
    {data : Document} (h : b.written now dir id ns fields = .ok (some data)) :
    b.fileNs (.document data) = some ns := by
  rw [written] at h
  split at h
  · split at h
    · cases h
    · obtain ⟨row, -, hrest⟩ := bind_eq_ok h
      split at hrest
      · cases hrest
      · obtain ⟨found, hfound, hdata⟩ := bind_eq_ok hrest
        obtain rfl := Option.some.inj (Except.ok.inj hdata)
        exact updatedDocument_ns hfound
  · cases h

/-- An update writes its document to the file of its id, or nothing. -/
theorem update_fst (b : YamlBackend) (now : Datetime) (dir : Directory) (id ns : String)
    (fields : Patch) :
    (b.update now dir id ns fields).1 =
      match b.written now dir id ns fields with
      | .ok (some data) => dir.put id (.document data)
      | _ => dir := by
  rw [update]
  cases b.written now dir id ns fields with
  | error error => rfl
  | ok found => cases found <;> rfl

theorem isolated_update_iff {now : Datetime} {dir : Directory} {id ns : String} {fields : Patch} :
    b.Isolated ns dir (b.update now dir id ns fields).1 ↔
      ((∃ data, b.written now dir id ns fields = .ok (some data)) → ¬b.Foreign ns dir id) := by
  rw [update_fst]
  cases hwritten : b.written now dir id ns fields with
  | error error => simp [Isolated.refl]
  | ok found =>
      cases found with
      | none => simp [Isolated.refl]
      | some data => simp [isolated_put_iff (written_ns hwritten)]

theorem isolated_store_iff {now : Datetime} {dir : Directory} {entry : MemoryEntry} :
    b.Isolated entry.ns dir ((b.store now dir entry).toOption.getD dir) ↔
      ((b.admits now dir entry).isOk = true → ¬b.Foreign entry.ns dir entry.id) := by
  rw [store]
  cases b.admits now dir entry with
  | error error =>
      refine iff_of_true (Isolated.refl b entry.ns dir) fun h => ?_
      cases h
  | ok _ =>
      have hns : b.fileNs (.document (entryToDict b.pydantic (stampSync b.digest entry))) =
          some entry.ns := rfl
      have hput : b.Isolated entry.ns dir (dir.put entry.id _) ↔
          ¬b.Foreign entry.ns dir entry.id := isolated_put_iff hns
      exact hput.trans ⟨fun h _ => h, fun h => h rfl⟩

/-- A row that is located belongs to the namespace. -/
theorem not_foreign_of_located {now : Datetime} {dir : Directory} {id ns : String}
    {e : MemoryEntry} (h : b.locateScoped now dir id ns = .ok (some e)) : ¬b.Foreign ns dir id := by
  obtain ⟨-, he, hns⟩ := locateScoped_eq_some_iff.mp h
  obtain ⟨file, row, hfile, hread, rfl⟩ := b.entryAt_eq_some he
  refine not_foreign hfile ?_
  rw [b.readFile_ns hread, ← hns, servedView_ns]

theorem isolated_delete {now : Datetime} {dir : Directory} {id ns : String} :
    b.Isolated ns dir (b.delete now dir id ns).1 := by
  rw [delete]
  split
  · exact Isolated.refl b ns dir
  · exact Isolated.refl b ns dir
  · rename_i hlocated
    refine isolated_discard_iff.mpr fun stem hstem => ?_
    rw [of_decide_eq_true hstem]
    exact not_foreign_of_located hlocated

theorem isolated_countRecalls {now : Datetime} {ns : String} {accessedAt : Option Datetime}
    (dir : Directory) (ids : List String) :
    b.Isolated ns dir (b.countRecalls now ns accessedAt dir ids).1 := by
  induction ids generalizing dir with
  | nil => exact Isolated.refl b ns dir
  | cons id ids ih =>
      rw [countRecalls]
      cases hget : b.get now dir id ns with
      | error error => exact Isolated.refl b ns dir
      | ok found =>
          cases found with
          | none => exact ih dir
          | some e =>
              have hown : ¬b.Foreign ns dir id :=
                not_foreign_of_located (get_eq_some_iff.mp hget).1
              have hupdate :
                  b.Isolated ns dir (b.update now dir id ns (countedFields e accessedAt)).1 :=
                isolated_update_iff.mpr fun _ => hown
              dsimp only
              generalize b.update now dir id ns (countedFields e accessedAt) = updated at hupdate
              obtain ⟨dir', answer⟩ := updated
              cases answer with
              | error error => exact hupdate
              | ok _ => exact hupdate.trans (ih dir')

theorem unlinkAll_fst (dir : Directory) (ids : List String) :
    (unlinkAll dir ids).1 = dir.discard fun stem => stem ∈ ids.takeWhile isPlainId := by
  induction ids generalizing dir with
  | nil => exact (dir.discard_eq_self fun _ _ => by simp).symm
  | cons id ids ih =>
      rw [unlinkAll, List.takeWhile_cons]
      cases isPlainId id with
      | false => exact (dir.discard_eq_self fun _ _ => by simp).symm
      | true =>
          rw [if_pos rfl, if_pos rfl]
          change (unlinkAll (dir.discard fun stem => stem = id) ids).1 = _
          rw [ih, Keyed.Table.discard_discard]
          simp only [List.mem_cons, Bool.decide_or]

variable (b) in
/-- The files that `delete_by_namespace` removes: those that the ids of its rows name, up to
the first id that names none. -/
def unlinked (now : Datetime) (dir : Directory) (ns : String) : List String :=
  match b.loadAll now dir with
  | .error _ => []
  | .ok entries => ((entries.filter fun e => e.ns = ns).map MemoryEntry.id).takeWhile isPlainId

theorem isolated_deleteByNamespace_iff {now : Datetime} {dir : Directory} {ns : String} :
    b.Isolated ns dir (b.deleteByNamespace now dir ns).1 ↔
      ∀ id ∈ b.unlinked now dir ns, ¬b.Foreign ns dir id := by
  rw [deleteByNamespace, unlinked]
  cases b.loadAll now dir with
  | error error => simp [Isolated.refl]
  | ok entries =>
      dsimp only
      rw [unlinkAll_fst, isolated_discard_iff]
      simp only [decide_eq_true_eq]

variable (b) in
/-- A store or an update is refused or finds no file of another namespace under its id, and
no row of a namespace that is deleted names such a file. -/
def Spares (now : Datetime) (dir : Directory) : Call → Prop
  | .store entry => (b.admits now dir entry).isOk = true → ¬b.Foreign entry.ns dir entry.id
  | .update id ns fields =>
      (∃ data, b.written now dir id ns fields = .ok (some data)) → ¬b.Foreign ns dir id
  | .delete _ _ | .incrementRecallAccess _ _ _ => True
  | .deleteByNamespace ns => ∀ id ∈ b.unlinked now dir ns, ¬b.Foreign ns dir id

/-- Exactly which calls leave the entries of the other namespaces as they were. -/
theorem isolated_run_iff (b : YamlBackend) (now : Datetime) (dir : Directory) (call : Call) :
    b.Isolated call.ns dir (b.run now dir call) ↔ b.Spares now dir call := by
  cases call with
  | store entry => exact isolated_store_iff
  | update id ns fields => exact isolated_update_iff
  | delete id ns => exact iff_of_true isolated_delete trivial
  | incrementRecallAccess ids ns accessedAt =>
      exact iff_of_true (isolated_countRecalls dir ids.eraseDups) trivial
  | deleteByNamespace ns => exact isolated_deleteByNamespace_iff

/-- A backend without a ledger. -/
def plainBackend : YamlBackend where
  py := reading plainPython
  pydantic := isoPydantic
  digest := fun _ => ""
  blocks := fun _ => false

def plainDirectory : Directory :=
  Keyed.Table.empty.put "m" (.document (entryToDict isoPydantic plainEntry))

def twinEntry : MemoryEntry := { plainEntry with ns := "other" }

/-- A store and an update addressed to another namespace take the entry's file. -/
theorem twin_overwritten :
    ¬plainBackend.Isolated "other" plainDirectory
        (plainBackend.run ⟨0, some 0⟩ plainDirectory (.store twinEntry)) ∧
      ¬plainBackend.Isolated "other" plainDirectory
        (plainBackend.run ⟨0, some 0⟩ plainDirectory
          (.update "m" "other" (Patch.none.set .content "new"))) := by
  have hforeign : plainBackend.Foreign "other" plainDirectory "m" := by
    have hread : (plainBackend.entryAt ⟨0, some 0⟩ plainDirectory "m").map MemoryEntry.ns =
        some "default" := by
      decide +kernel
    obtain ⟨e, he, hns⟩ := Option.map_eq_some_iff.mp hread
    exact ⟨⟨0, some 0⟩, e, he, by rw [hns]; decide⟩
  constructor
  · intro hisolated
    have hspares : (plainBackend.admits ⟨0, some 0⟩ plainDirectory twinEntry).isOk = true →
        ¬plainBackend.Foreign "other" plainDirectory "m" :=
      isolated_store_iff.mp hisolated
    exact hspares (by decide +kernel) hforeign
  · refine fun hisolated => isolated_update_iff.mp hisolated ?_ hforeign
    have hwritten : (match plainBackend.written ⟨0, some 0⟩ plainDirectory "m" "other"
        (Patch.none.set .content "new") with
      | .ok (some _) => true
      | _ => false) = true := by
      decide +kernel
    split at hwritten
    · exact ⟨_, by assumption⟩
    · cases hwritten

end YamlBackend

end TrwMemory.Codec
