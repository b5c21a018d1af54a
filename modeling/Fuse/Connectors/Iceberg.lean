import Fuse.Core.Connector
import Fuse.Foundation.Json

/-!
# The data files of an Iceberg table

`resolve_data_files` (`iceberg/src/lib.rs`) follows a table's metadata to the
data files: from a snapshot to its manifest list, from there to the manifests
and their entries.  It starts at the last snapshot in the document, and an
entry's status is not looked at.
-/

namespace Fuse.Connectors

open Foundation Fuse.Core List

/-! ## The connector -/

inductive Fetched where
  | unreachable (message : Str)
  | undecodable (message : Str)
  | json (body : Json)

structure IcebergConnector where
  catalogUrl : Str
  namespaceName : Str

def extractManifestPaths (snapshot : Json) : List Str :=
  (snapshot.field "manifests").items.filterMap fun m =>
    (m.field "manifest_path").asStr

def entryPaths (manifest : Json) : List Str :=
  (manifest.field "entries").items.filterMap fun entry =>
    ((entry.field "data_file").field "file_path").asStr

def orQueryFailed {α : Type} (message : Str) :
    Option α → Except ConnectorError α
  | some a => .ok a
  | none => .error (.queryFailed message)

/-- A document where one that is not JSON counts as `{ key: [] }`. -/
def fetchOrEmpty (web : Str → Fetched) (key failure url : Str) :
    Except ConnectorError Json :=
  match web url with
  | .unreachable message => .error (.queryFailed (failure ++ message))
  | .undecodable _ => .ok (.object [(key, .array [])])
  | .json body => .ok body

def manifestFiles (web : Str → Fetched) :
    List Str → List Str → Except ConnectorError (List Str)
  | [], dataFiles => .ok dataFiles
  | path :: paths, dataFiles => do
      let manifest ←
        fetchOrEmpty web "entries" "failed to fetch manifest: " path
      manifestFiles web paths (dataFiles ++ entryPaths manifest)

namespace IcebergConnector

variable (c : IcebergConnector)

def tablesUrl : Str :=
  c.catalogUrl ++ ("/v1/namespaces/" : Str) ++ c.namespaceName ++
    ("/tables" : Str)

def tableUrl (table : Str) : Str := c.tablesUrl ++ '/' :: table

def fetchTable (web : Str → Fetched) (table : Str) :
    Except ConnectorError Json :=
  match web (c.tableUrl table) with
  | .unreachable message => .error (.connection message)
  | .undecodable message => .error (.queryFailed message)
  | .json body => .ok body

def resolveDataFiles (web : Str → Fetched) (table : Str) :
    Except ConnectorError (List Str) := do
  let doc ← c.fetchTable web table
  let snapshots ← orQueryFailed "no snapshots in table metadata"
    ((doc.field "metadata").field "snapshots").asArray
  let snapshot ← orQueryFailed "empty snapshots array" snapshots.getLast?
  let manifestList ← orQueryFailed "no manifest-list in snapshot"
    (snapshot.field "manifest-list").asStr
  let listing ← fetchOrEmpty web "manifests" "failed to fetch manifest list: "
    manifestList
  let dataFiles ← manifestFiles web (extractManifestPaths listing) []
  if dataFiles = [] then
    return (snapshot.field "data_files").items.filterMap Json.asStr
  return dataFiles

end IcebergConnector

/-! ## Tables -/

inductive EntryStatus where
  | existing | added | deleted
  deriving DecidableEq, Repr

def EntryStatus.code : EntryStatus → Int
  | existing => 0
  | added => 1
  | deleted => 2

structure ManifestEntry where
  status : EntryStatus
  filePath : Str
  deriving DecidableEq, Repr

structure Snapshot where
  id : Int
  manifestList : Str
  dataFiles : List Str := []
  deriving DecidableEq, Repr

structure TableMetadata where
  snapshots : List Snapshot
  currentSnapshotId : Option Int
  deriving DecidableEq, Repr

structure Manifests where
  paths : Str → List Str
  entries : Str → List ManifestEntry

namespace TableMetadata

variable (t : TableMetadata)

def current : Option Snapshot :=
  t.currentSnapshotId.bind fun id => t.snapshots.find? (·.id = id)

end TableMetadata

namespace Manifests

variable (m : Manifests) (s : Snapshot)

def entriesOf : List ManifestEntry := (m.paths s.manifestList).flatMap m.entries

def liveFiles : List Str :=
  ((m.entriesOf s).filter (·.status ≠ .deleted)).map (·.filePath)

def namedFiles : List Str := (m.entriesOf s).map (·.filePath)

end Manifests

def TableMetadata.liveFiles (t : TableMetadata) (m : Manifests) : List Str :=
  t.current.elim [] m.liveFiles

/-! ## Documents of a table -/

structure EntryDoc (doc : Json) (e : ManifestEntry) : Prop where
  status : (doc.field "status").asInt = some e.status.code
  path : ((doc.field "data_file").field "file_path").asStr = some e.filePath

structure SnapshotDoc (doc : Json) (s : Snapshot) : Prop where
  id : (doc.field "snapshot-id").asInt = some s.id
  manifestList : (doc.field "manifest-list").asStr = some s.manifestList
  dataFiles : (doc.field "data_files").items.filterMap Json.asStr = s.dataFiles

def PathDoc (doc : Json) (path : Str) : Prop :=
  (doc.field "manifest_path").asStr = some path

structure TableDoc (doc : Json) (t : TableMetadata) : Prop where
  snapshots : Json.ListOf SnapshotDoc
    ((doc.field "metadata").field "snapshots") t.snapshots
  current : ((doc.field "metadata").field "current-snapshot-id").asInt =
    t.currentSnapshotId

/-- The table is served under `url`, and its manifests under theirs. -/
structure Published (web : Str → Fetched) (url : Str) (t : TableMetadata)
    (m : Manifests) : Prop where
  table : ∃ doc, web url = .json doc ∧ TableDoc doc t
  lists : ∀ s ∈ t.snapshots, ∃ doc, web s.manifestList = .json doc ∧
    Json.ListOf PathDoc (doc.field "manifests") (m.paths s.manifestList)
  manifests : ∀ s ∈ t.snapshots, ∀ path ∈ m.paths s.manifestList, ∃ doc,
    web path = .json doc ∧
      Json.ListOf EntryDoc (doc.field "entries") (m.entries path)

theorem manifestFiles_published {web : Str → Fetched} {m : Manifests}
    {paths : List Str} (h : ∀ path ∈ paths, ∃ doc, web path = .json doc ∧
      Json.ListOf EntryDoc (doc.field "entries")
      (m.entries path)) (dataFiles : List Str) :
    manifestFiles web paths dataFiles =
      .ok (dataFiles ++ (paths.flatMap m.entries).map (·.filePath)) := by
  induction paths generalizing dataFiles with
  | nil => simp [manifestFiles]
  | cons path paths ih =>
    obtain ⟨doc, hweb, hentries⟩ := h path mem_cons_self
    have hfetch : fetchOrEmpty web "entries" "failed to fetch manifest: " path =
        .ok doc := by rw [fetchOrEmpty, hweb]
    have hpaths : entryPaths doc = (m.entries path).map (·.filePath) :=
      hentries.filterMap_items fun _ _ hdoc => hdoc.path
    rw [manifestFiles, hfetch]
    change manifestFiles web paths (dataFiles ++ entryPaths doc) = _
    rw [ih (fun p hp => h p (mem_cons_of_mem path hp)), hpaths]
    simp

def TableMetadata.readFiles (t : TableMetadata) (m : Manifests) :
    Except ConnectorError (List Str) :=
  match t.snapshots.getLast? with
  | none => .error (.queryFailed "empty snapshots array")
  | some s => .ok (if m.namedFiles s = [] then s.dataFiles else m.namedFiles s)

variable {c : IcebergConnector} {web : Str → Fetched} {table : Str}
  {t : TableMetadata} {m : Manifests}

theorem resolveDataFiles_published (h : Published web (c.tableUrl table) t m) :
    c.resolveDataFiles web table = t.readFiles m := by
  obtain ⟨doc, hdoc, htable⟩ := h.table
  obtain ⟨docs, harray, hlast⟩ := htable.snapshots.exists_getLast
  have hfetch : c.fetchTable web table = .ok doc := by
    rw [IcebergConnector.fetchTable, hdoc]
  rw [IcebergConnector.resolveDataFiles, hfetch]
  simp only [bind, Except.bind, harray, orQueryFailed, TableMetadata.readFiles]
  generalize hsnapshot : t.snapshots.getLast? = last at hlast ⊢
  generalize docs.getLast? = lastDoc at hlast ⊢
  cases hlast with
  | none => rfl
  | @some d s hd =>
    have hmem : s ∈ t.snapshots := mem_of_getLast? hsnapshot
    obtain ⟨listing, hlisting, hpaths⟩ := h.lists s hmem
    have hmanifests : extractManifestPaths listing =
        m.paths s.manifestList := by
      have := hpaths.filterMap_items fun _ _ h => h
      rwa [map_id'] at this
    have hlist : fetchOrEmpty web "manifests" "failed to fetch manifest list: "
        s.manifestList = .ok listing := by rw [fetchOrEmpty, hlisting]
    simp only [hd.manifestList, hlist, hmanifests,
      manifestFiles_published (h.manifests s hmem), nil_append, hd.dataFiles]
    change (if m.namedFiles s = [] then _ else _) = _
    split <;> rfl

/-! ## Every table can be served -/

def entryDoc (e : ManifestEntry) : Json :=
  .object [("status", .int e.status.code),
    ("data_file", .object [("file_path", .str e.filePath)])]

def pathDoc (path : Str) : Json := .object [("manifest_path", .str path)]

def snapshotDoc (s : Snapshot) : Json :=
  .object [("snapshot-id", .int s.id), ("manifest-list", .str s.manifestList),
    ("data_files", .array (s.dataFiles.map .str))]

def tableDoc (t : TableMetadata) : Json :=
  .object [("snapshots", .array (t.snapshots.map snapshotDoc)),
    ("current-snapshot-id", t.currentSnapshotId.elim .null .int)]

def publish (url : Str) (t : TableMetadata) (m : Manifests) (u : Str) :
    Fetched :=
  .json (.object [("metadata", if u = url then tableDoc t else .null),
    ("manifests", .array ((m.paths u).map pathDoc)),
    ("entries", .array ((m.entries u).map entryDoc))])

theorem published_publish (url : Str) (t : TableMetadata) (m : Manifests) :
    Published (publish url t m) url t m where
  table := by
    refine ⟨_, rfl, ?_, ?_⟩
    · rw [if_pos rfl]
      refine Json.listOf_map (fun s => ⟨rfl, rfl, ?_⟩) _
      change (s.dataFiles.map Json.str).filterMap Json.asStr = _
      rw [filterMap_map]
      exact filterMap_some
    · rw [if_pos rfl]
      have hread : ∀ id : Option Int, (id.elim Json.null Json.int).asInt =
          id := by
        rintro (_ | _) <;> rfl
      exact hread t.currentSnapshotId
  lists s _ := by
    have hdoc : ∀ path, PathDoc (pathDoc path) path := fun _ => rfl
    exact ⟨_, rfl, Json.listOf_map hdoc _⟩
  manifests _ _ _ _ := ⟨_, rfl, Json.listOf_map (fun _ => ⟨rfl, rfl⟩) _⟩

/-! ## Tables that are read as they are -/

def NoDeletions (t : TableMetadata) (m : Manifests) : Prop :=
  ∀ s, t.snapshots.getLast? = some s → ∀ e ∈ m.entriesOf s, e.status ≠ .deleted

/-- The last snapshot has the manifests of the current one, and no files beside
them. -/
def LastIsCurrent (t : TableMetadata) : Prop :=
  ∃ s last, t.current = some s ∧ t.snapshots.getLast? = some last ∧
    last.manifestList = s.manifestList ∧ last.dataFiles = []

def ReadsCurrent (c : IcebergConnector) (web : Str → Fetched) (table : Str)
    (t : TableMetadata) (m : Manifests) : Prop :=
  ∃ files, c.resolveDataFiles web table = .ok files ∧ files.Perm (t.liveFiles m)

private theorem liveFiles_eq_namedFiles {s : Snapshot}
    (h : ∀ e ∈ m.entriesOf s, e.status ≠ .deleted) :
    m.liveFiles s = m.namedFiles s := by
  have hall : (m.entriesOf s).filter (·.status ≠ .deleted) = m.entriesOf s :=
    filter_eq_self.mpr fun e he => decide_eq_true (h e he)
  rw [Manifests.liveFiles, hall, Manifests.namedFiles]

theorem readsCurrent_of_lastIsCurrent (h : Published web (c.tableUrl table) t m)
    (hlast : LastIsCurrent t) (hnone : NoDeletions t m) :
    ReadsCurrent c web table t m := by
  obtain ⟨s, last, hcurrent, hgetLast, hlist, hfiles⟩ := hlast
  have hsame : m.entriesOf last = m.entriesOf s := by
    rw [Manifests.entriesOf, hlist, Manifests.entriesOf]
  have hlive : t.liveFiles m = m.namedFiles last := by
    rw [TableMetadata.liveFiles, hcurrent, Option.elim_some,
      ← liveFiles_eq_namedFiles
      (hnone last hgetLast), Manifests.liveFiles, Manifests.liveFiles, hsame]
  refine ⟨m.namedFiles last, ?_, by rw [hlive]⟩
  rw [resolveDataFiles_published h, TableMetadata.readFiles, hgetLast]
  by_cases hnamed : m.namedFiles last = []
  · simp [hnamed, hfiles]
  · simp [hnamed]

/-- A manifest of one entry, in the manifest lists that `lists` chooses. -/
def oneEntry (lists : Str → Bool) (status : EntryStatus) : Manifests where
  paths url := if lists url then ["m"] else []
  entries _ := [⟨status, "f"⟩]

theorem entriesOf_oneEntry (lists : Str → Bool) (status : EntryStatus)
    (s : Snapshot) :
    (oneEntry lists status).entriesOf s =
      if lists s.manifestList then [⟨status, "f"⟩] else [] := by
  by_cases h : lists s.manifestList <;> simp [Manifests.entriesOf, oneEntry, h]

theorem namedFiles_oneEntry (lists : Str → Bool) (status : EntryStatus)
    (s : Snapshot) :
    (oneEntry lists status).namedFiles s =
      if lists s.manifestList then ["f".toList] else [] := by
  by_cases h : lists s.manifestList <;>
    simp [Manifests.namedFiles, entriesOf_oneEntry, h]

theorem ReadsCurrent.of_publish
    (h : ReadsCurrent c (publish (c.tableUrl table) t m) table t m) :
    ∃ last, t.snapshots.getLast? = some last ∧
    (if m.namedFiles last = [] then last.dataFiles
        else m.namedFiles last).Perm (t.liveFiles m) := by
  obtain ⟨files, hfiles, hperm⟩ := h
  rw [resolveDataFiles_published (published_publish _ t m),
    TableMetadata.readFiles] at hfiles
  cases hlast : t.snapshots.getLast? with
  | none =>
    rw [hlast] at hfiles
    cases hfiles
  | some last =>
    rw [hlast] at hfiles
    cases hfiles
    exact ⟨last, rfl, hperm⟩

theorem not_reads_deleted
    (h : ReadsCurrent c (publish (c.tableUrl table) t
      (oneEntry (fun _ => true) .deleted)) table t
      (oneEntry (fun _ => true) .deleted)) : False := by
  obtain ⟨last, -, hperm⟩ := h.of_publish
  have hlive : t.liveFiles (oneEntry (fun _ => true) .deleted) = [] := by
    cases hcurrent : t.current with
    | none => rw [TableMetadata.liveFiles, hcurrent, Option.elim_none]
    | some s =>
      rw [TableMetadata.liveFiles, hcurrent, Option.elim_some,
        Manifests.liveFiles, entriesOf_oneEntry]
      rfl
  rw [namedFiles_oneEntry, hlive] at hperm
  cases hperm.eq_nil

private theorem liveFiles_added {lists : Str → Bool} {files : List Str}
    (hperm : files.Perm (t.liveFiles (oneEntry lists .added)))
    (hfiles : files ≠ []) :
    ∃ s, t.current = some s ∧ lists s.manifestList = true := by
  cases hcurrent : t.current with
  | none =>
    rw [TableMetadata.liveFiles, hcurrent, Option.elim_none] at hperm
    exact absurd hperm.eq_nil hfiles
  | some s =>
    refine ⟨s, rfl, ?_⟩
    by_contra hlists
    rw [TableMetadata.liveFiles, hcurrent, Option.elim_some,
      Manifests.liveFiles, entriesOf_oneEntry, if_neg hlists] at hperm
    exact hfiles hperm.eq_nil

/-- A table is read as it is, whatever is in its manifests, exactly when the
last snapshot is the current one and no entry is of a removed file. -/
theorem reads_current_iff (c : IcebergConnector) (table : Str)
    (t : TableMetadata) (deletions : Bool) :
    (∀ web m, Published web (c.tableUrl table) t m →
      (deletions = false → NoDeletions t m) → ReadsCurrent c web table t m) ↔
      deletions = false ∧ LastIsCurrent t := by
  constructor
  · intro h
    have hserved := fun m => h _ m (published_publish _ t m)
    have hdeletions : deletions = false := by
      cases deletions with
      | false => rfl
      | true =>
        exact (not_reads_deleted (hserved _ fun hfalse => by cases hfalse)).elim
    -- a table without files, and one with a file in the last snapshot only
    have hno : NoDeletions t (oneEntry (fun _ => false) .added) := by
      intro s _ e he
      rw [entriesOf_oneEntry] at he
      cases he
    obtain ⟨last, hlast, hempty⟩ := (hserved _ fun _ => hno).of_publish
    have hadded : NoDeletions t
        (oneEntry (fun url => url = last.manifestList) .added) := by
      intro s hs e he
      rw [entriesOf_oneEntry] at he
      split at he
      · cases mem_singleton.mp he
        simp
      · cases he
    obtain ⟨last', hlast', hone⟩ := (hserved _ fun _ => hadded).of_publish
    obtain rfl := Option.some.inj (hlast.symm.trans hlast')
    have hnamed : (oneEntry (fun url => url = last.manifestList)
        .added).namedFiles last = ["f".toList] := by simp [namedFiles_oneEntry]
    rw [hnamed, if_neg (by simp)] at hone
    obtain ⟨s, hcurrent, hlist⟩ := liveFiles_added hone (by simp)
    refine ⟨hdeletions, s, last, hcurrent, hlast,
      (of_decide_eq_true hlist).symm, ?_⟩
    have hlive : t.liveFiles (oneEntry (fun _ => false) .added) = [] := by
      rw [TableMetadata.liveFiles, hcurrent, Option.elim_some,
        Manifests.liveFiles, entriesOf_oneEntry]
      rfl
    rw [namedFiles_oneEntry, hlive] at hempty
    exact hempty.eq_nil
  · rintro ⟨rfl, hlast⟩ web m hpublished hnone
    exact readsCurrent_of_lastIsCurrent hpublished hlast (hnone rfl)

def rolledBack : TableMetadata where
  snapshots := [⟨1, "s3://w/l1", []⟩, ⟨2, "s3://w/l2", []⟩]
  currentSnapshotId := some 1

def twoVersions : Manifests where
  paths url := if url = "s3://w/l1" then ["s3://w/m1"] else ["s3://w/m2"]
  entries url :=
    if url = "s3://w/m1" then [⟨.added, "s3://w/a.parquet"⟩]
    else [⟨.deleted, "s3://w/a.parquet"⟩, ⟨.added, "s3://w/b.parquet"⟩]

def catalog : IcebergConnector := ⟨"http://iceberg:8181", "default"⟩

theorem rolled_back_misread :
    let web := publish (catalog.tableUrl "orders") rolledBack twoVersions
    Published web (catalog.tableUrl "orders") rolledBack twoVersions ∧
      catalog.resolveDataFiles web "orders" =
        .ok ["s3://w/a.parquet".toList, "s3://w/b.parquet".toList] ∧
      rolledBack.liveFiles twoVersions = ["s3://w/a.parquet".toList] := by
  refine ⟨published_publish _ _ _, ?_, ?_⟩
  · decide +kernel
  · decide +kernel

end Fuse.Connectors
