/-
  The checkpoints of one session: `snapshot`, `discard_checkpoint` and `rollback`.

  A checkpoint is a directory under `checkpoints/` with the map specification and a descriptor.
  The manifest names a checkpoint for the hash of a content, so that an automatic snapshot can
  return a checkpoint that is there instead of writing one. The hash function is a parameter:
  nothing is assumed of it.
-/
import WebGis.Data.JsonTree
import WebGis.Data.Json
import WebGis.Data.Dict
import WebGis.Data.Fields

namespace WebGis.Mapspec

open Data Data.Json

/-! ## Ids -/

def isSafeChar (c : Char) : Bool := c.isAlphanum || c = '_' || c = '.' || c = '-'

/-- A match of `[...]+` up to the end, where `$` also matches before a last line feed. -/
def isRun (p : Char → Bool) (cs : List Char) : Bool :=
  let body := if cs.getLast? = some '\n' then cs.dropLast else cs
  body ≠ [] ∧ body.all p

/-- `_validate_checkpoint_id` -/
def isSafeId (id : String) : Bool :=
  isRun isSafeChar id.toList ∧ id ≠ "." ∧ id ≠ ".."

def autoPrefix : List Char := ['c', 'k', 'p', 't', '_']

/-- `ckpt_<millis>` -/
def autoId (now : Nat) : String := String.ofList (autoPrefix ++ intChars now)

/-- `_AUTO_CKPT_RE.match(name)` -/
def isAutoName (name : String) : Bool :=
  autoPrefix.isPrefixOf name.toList ∧ isRun Char.isDigit (name.toList.drop autoPrefix.length)

/-- `checkpoint_id or f"ckpt_{int(time.time() * 1000)}"` -/
def idFor (checkpointId : Option String) (now : Nat) : String :=
  match checkpointId with
  | some id => if id = "" then autoId now else id
  | none => autoId now

/-! ## What is stored -/

inductive Mode where
  | selfContained
  | presentationOnly
  deriving DecidableEq, Repr

/-- `descriptor.json` -/
structure Descriptor where
  contentHash : String
  refs : Dict String String
  mode : Mode
  referencedRefs : List String

/-- A directory that `snapshot` has written. -/
structure Checkpoint where
  mapspec : Json
  descriptor : Descriptor

/-- The directory `checkpoints/`. The blobs lie in its directory `blobs`, and the manifest is its
    file `manifest.json`: both names can be taken for the id of a checkpoint. -/
structure CheckpointStore where
  dirs : Dict String Checkpoint
  blobs : Dict String Json
  manifest : Option (Dict String String)

def manifestName : String := "manifest.json"

def blobsName : String := "blobs"

namespace CheckpointStore

variable (s : CheckpointStore)

/-- `_load_manifest(session_dir)["entries"]` -/
def loadManifest : Dict String String :=
  if manifestName ∈ s.dirs.keys then Dict.empty else s.manifest.getD Dict.empty

/-- The manifest is replaced, unless a directory has its name. -/
def writeManifest (entries : Dict String String) : Option CheckpointStore :=
  if manifestName ∈ s.dirs.keys then none else some { s with manifest := some entries }

/-- `(_checkpoints_root(session_dir) / id).exists()` -/
def present (id : String) : Bool :=
  id ∈ s.dirs.keys || id = blobsName || (id = manifestName && s.manifest.isSome)

/-- The directories under these names are removed. -/
def dropDirs (names : List String) : CheckpointStore :=
  { s with dirs := s.dirs.delete fun kv => kv.1 ∈ names }

def ckptRetention : Nat := 20

/-- The order of `sorted` on names. -/
def nameLe (a b : String) : Bool := decide (a.toList.map Char.toNat ≤ b.toList.map Char.toNat)

/-- `_select_prune_targets(session_dir)` -/
def pruneTargets : List String :=
  let auto := (s.dirs.keys.filter isAutoName).insertionSort (fun a b => nameLe a b)
  auto.take (auto.length - ckptRetention)

/-- `_prune_and_write_manifest_sync(session_dir, manifest)`; nothing when the manifest cannot be
    written. -/
def pruneAndWriteManifest (entries : Dict String String) : Option CheckpointStore :=
  (s.writeManifest (entries.delete fun e => e.2 ∈ s.pruneTargets)).map
    fun written => written.dropDirs s.pruneTargets

/-- `_prune_auto_checkpoints_sync`: the manifest on disk stays. -/
def pruneAutoCheckpoints : CheckpointStore := s.dropDirs s.pruneTargets

end CheckpointStore

/-! ## References -/

/-- What the session holds beside the checkpoints: the payload of a reference, the references that
    are listed, the images, and whether a payload can be put back. -/
structure SessionData where
  get : String → Option Json
  listed : List String
  image : String → Bool
  overwrite : String → Bool

def isRef : Json → Option String
  | .str s => if startsWith "ref:" s then some s else none
  | _ => none

/-- The first of `a or b or …` that is true. -/
def firstTruthy (vs : List (Option Json)) : Option Json := (vs.filterMap id).find? truthy

def fabricTypes : List String := ["data_fabric", "wms", "wmts", "pmtiles"]

/-- `is_data_fabric_entry(entry)` for a type that can be looked up in a set. -/
def isDataFabricEntry (entry : Fields) : Bool :=
  (match field "type" entry with
    | some (.str t) => decide (t ∈ fabricTypes)
    | _ => false) ||
  hasField entry "catalog_item_id" ||
  (match field "lazy" entry with
    | some (.bool b) => b
    | _ => false) ||
  ((field "url" entry).bind isRef).isSome

def isRasterEntry (entry : Fields) : Bool :=
  match field "type" entry with
  | some (.str t) => t = "raster"
  | _ => false

/-- `ref(entry)` where it is a reference of the session. -/
def sessionSourceRef (entry : Fields) : Option String :=
  if isRasterEntry entry then (field "imageRef" entry).bind isRef
  else if isDataFabricEntry entry then
    (firstTruthy [field "ref_id" entry, field "url" entry, field "dataPath" entry]).bind isRef
  else
    (firstTruthy [field "ref_id" entry, field "ref" entry, field "url" entry,
      field "dataPath" entry]).bind isRef

/-- `mapspec.get("sources", {}).values()`; nothing where that raises. -/
def sourceValues : Json → Option (List Json)
  | .obj fs =>
    match field "sources" fs with
    | none => some []
    | some (.obj sources) => some ((Dict.ofList sources).items.map Prod.snd)
    | some _ => none
  | _ => none

/-- `_referenced_session_refs(mapspec)` -/
def referencedSessionRefs (sources : List Json) : List String :=
  (sources.filterMap fun
    | .obj entry => sessionSourceRef entry
    | _ => none).foldl (fun refs r => if r ∈ refs then refs else refs ++ [r]) []

/-- `_materialize_refs`; nothing where a source is no object. -/
def materializeRefs (D : SessionData) (sources : List Json) : Option (Dict String Json) :=
  sources.foldlM
    (fun refs source =>
      match source with
      | .obj entry =>
        match (sessionSourceRef entry).bind fun r => (D.get r).map fun payload => (r, payload) with
        | none => some refs
        | some (_, .null) => some refs
        | some (r, payload) => some (refs.set r payload)
      | _ => none)
    Dict.empty

/-! ## The operations -/

section Operations

variable (sha256 : String → String) (R : FloatRepr)

/-- `_write_ref_blobs_sync` -/
def writeRefBlobs (blobs : Dict String Json) (refs : Dict String Json) :
    Dict String Json × Dict String String :=
  refs.items.foldl
    (fun acc ref =>
      let hash := sha256 (dumps R ref.2)
      (if hash ∈ acc.1.keys then acc.1 else acc.1.set hash ref.2, acc.2.set ref.1 hash))
    (blobs, Dict.empty)

/-- `_content_hash(mapspec, ref_blob_map)` -/
def contentHash (mapspec : Json) (refs : Dict String String) : String :=
  sha256 (dumps R mapspec ++ "\x1f" ++ dumps R (.obj (refs.items.map fun r => (r.1, .str r.2))))

/-- Why a call raises. -/
inductive CheckpointError where
  | checkpointId
  | sources
  | directory
  | manifest
  deriving DecidableEq, Repr

/-- What `snapshot` returns. -/
structure Taken where
  checkpointId : String
  refCount : Nat
  deduplicated : Bool
  deriving DecidableEq, Repr

/-- What `snapshot` leaves: the store, whether the directory was written, and what it returns. -/
structure Saved where
  store : CheckpointStore
  wrote : Bool
  result : Except CheckpointError Taken

/-- The checkpoint that is returned for this content instead of a new one. -/
def CheckpointStore.reusable (s : CheckpointStore) (checkpointId : Option String) (hash : String) :
    Option String :=
  match checkpointId with
  | none => (s.loadManifest.find hash).filter fun existing => s.present existing
  | some _ => none

/-- The directory of this name has this content already. -/
def CheckpointStore.records (s : CheckpointStore) (id hash : String) : Bool :=
  match s.dirs.find id with
  | some c => c.descriptor.contentHash = hash
  | none => false

/-- What `snapshot` has at hand once the content is hashed: the store with the new blobs, the
    name of the directory, and what would be written there. -/
structure Prepared where
  store : CheckpointStore
  id : String
  checkpoint : Checkpoint

/-- `snapshot` up to the content hash. -/
def prepare (D : SessionData) (now : Nat) (s : CheckpointStore) (mapspec : Json)
    (checkpointId : Option String) : Except CheckpointError Prepared :=
  let id := idFor checkpointId now
  if ¬ isSafeId id then .error .checkpointId
  else
    match sourceValues mapspec with
    | none => .error .sources
    | some sources =>
      -- an automatic checkpoint does not copy the payloads
      match if checkpointId = none then some Dict.empty else materializeRefs D sources with
      | none => .error .sources
      | some refs =>
        let written := writeRefBlobs sha256 R s.blobs refs
        .ok
          { store := { s with blobs := written.1 }
            id := id
            checkpoint :=
              { mapspec := mapspec
                descriptor :=
                  { contentHash := contentHash sha256 R mapspec written.2
                    refs := written.2
                    mode := if checkpointId = none then .presentationOnly else .selfContained
                    referencedRefs := referencedSessionRefs sources } } }

/-- `snapshot` from the content hash on. -/
def Prepared.take (p : Prepared) (checkpointId : Option String) : Saved :=
  let hash := p.checkpoint.descriptor.contentHash
  let taken (id : String) (deduplicated : Bool) : Taken :=
    { checkpointId := id, refCount := p.checkpoint.descriptor.refs.items.length
      deduplicated := deduplicated }
  match p.store.reusable checkpointId hash with
  | some existing => { store := p.store, wrote := false, result := .ok (taken existing true) }
  | none =>
    let entries := p.store.loadManifest.set hash p.id
    if p.store.records p.id hash then
      match p.store.writeManifest entries with
      | some s => { store := s, wrote := false, result := .ok (taken p.id true) }
      | none => { store := p.store, wrote := false, result := .error .manifest }
    else if p.id = manifestName ∧ p.id ∉ p.store.dirs.keys ∧ p.store.manifest.isSome then
      { store := p.store, wrote := false, result := .error .directory }
    else
      let written : CheckpointStore :=
        { p.store with dirs := p.store.dirs.set p.id p.checkpoint }
      match written.pruneAndWriteManifest entries with
      | some s => { store := s, wrote := true, result := .ok (taken p.id false) }
      | none => { store := written, wrote := true, result := .error .manifest }

/-- `snapshot(mapspec, session_dir, session_data_manager, checkpoint_id)` at the time `now`. -/
def snapshot (D : SessionData) (now : Nat) (s : CheckpointStore) (mapspec : Json)
    (checkpointId : Option String) : Saved :=
  match prepare sha256 R D now s mapspec checkpointId with
  | .error e => { store := s, wrote := false, result := .error e }
  | .ok p => p.take checkpointId

/-- `discard_checkpoint(session_dir, checkpoint_id)` -/
def discardCheckpoint (s : CheckpointStore) (id : String) :
    CheckpointStore × Except CheckpointError Unit :=
  if id = "" then (s, .ok ())
  else if ¬ isSafeId id then (s, .error .checkpointId)
  else if id = manifestName ∧ id ∉ s.dirs.keys ∧ s.manifest.isSome then (s, .error .directory)
  else
    let removed : CheckpointStore :=
      { s.dropDirs [id] with blobs := if id = blobsName then Dict.empty else s.blobs }
    match removed.pruneAndWriteManifest (removed.loadManifest.delete fun e => e.2 = id) with
    | some s' => (s', .ok ())
    | none => (removed, .error .manifest)

/-- The references that a checkpoint needs can be had again. -/
def restorable (D : SessionData) (s : CheckpointStore) (d : Descriptor) : Bool :=
  match d.mode with
  | .presentationOnly =>
    d.referencedRefs.all fun r => if startsWith "ref:raster/" r then D.image r else r ∈ D.listed
  | .selfContained =>
    (d.referencedRefs.all fun r => r ∈ d.refs.keys) &&
      d.refs.items.all fun r => decide (r.2 ∈ s.blobs.keys) && D.overwrite r.1

/-- `rollback(session_dir, checkpoint_id, session_data_manager)`, where it succeeds. -/
def rollback (D : SessionData) (s : CheckpointStore) (id : String) : Option Json :=
  if isSafeId id then
    (s.dirs.find id).bind fun c => if restorable D s c.descriptor then some c.mapspec else none
  else none

end Operations

end WebGis.Mapspec
