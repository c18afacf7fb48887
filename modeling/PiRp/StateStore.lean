import PiRp.StateOps

/-! The namespace files of `packages/coding-agent/src/state/state-store.ts`. A file holds a revision
and a state, both as `JSON.parse` gives them back. `commitNamespace` replays operations on the state of
the file; run alone it is one function of the file. -/

namespace PiRp.State

mutual

/-- `JSON.parse(JSON.stringify(value))`: holes and numbers without a JSON text become null. -/
def jsonCopy (value : JsValue) : JsValue :=
  match value with
  | .null => .null
  | .bool value => .bool value
  | .number value => if value.isFinite then .number value.norm else .null
  | .string value => .string value
  | .array items => .array (jsonCopyItems items)
  | .object props => .object (jsonCopyProps props)

def jsonCopyItems (items : List (Option JsValue)) : List (Option JsValue) :=
  match items with
  | [] => []
  | none :: rest => some .null :: jsonCopyItems rest
  | some value :: rest => some (jsonCopy value) :: jsonCopyItems rest

def jsonCopyProps (props : List (JsStr × JsValue)) : List (JsStr × JsValue) :=
  match props with
  | [] => []
  | (key, value) :: rest => (key, jsonCopy value) :: jsonCopyProps rest

end

/-- A parsed namespace file; `state` is missing when the file has no such property. -/
structure NamespaceFile where
  revision : Nat
  state : Option JsValue
  deriving DecidableEq

/-- `readNamespace`: a missing or corrupt file reads as revision 0 without a state. -/
def readNamespace (file : Option NamespaceFile) : NamespaceFile := file.getD ⟨0, none⟩

/-- The object the operations are replayed on. -/
def baseline (snap : NamespaceFile) : Props JsValue :=
  match snap.state with
  | some state => objectOr state
  | none => []

inductive CommitResult where
  | ok (revision : Nat)
  | conflict
  deriving DecidableEq

section Commit

variable [JsNumber.Addition]

/-- What `_writeNamespace` leaves in the file. -/
def written (revision : Nat) (root : Props JsValue) : NamespaceFile :=
  ⟨revision, some (jsonCopy (.object root))⟩

/-- The operations replayed on a file and written back with the next revision. -/
def commitFile (ops : List StoreOp) (file : Option NamespaceFile) : Option NamespaceFile :=
  (replay (baseline (readNamespace file)) ops).map (written ((readNamespace file).revision + 1))

theorem commitFile_revision {ops : List StoreOp} {file : Option NamespaceFile} {changed : NamespaceFile}
    (hcom : commitFile ops file = some changed) : changed.revision = (readNamespace file).revision + 1 := by
  rw [commitFile, Option.map_eq_some_iff] at hcom
  obtain ⟨root, _, rfl⟩ := hcom
  rfl

end Commit

end PiRp.State
