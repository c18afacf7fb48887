import PiRp.JsonTextRoundTrip
import PiRp.ObjectStore
import PiRp.Worklist
import Mathlib.Data.List.Sort

/-! The closure walk of `packages/agent/src/core/objects/bundle/index.ts`: canonical JSON, the object
schemas of the default registry and `CodecClosureWalker`. A function that throws returns `none`. -/

namespace PiRp.Bundle

open List Props

/-- The code points of a string; a lone surrogate is one of its own. -/
def codePoints : JsStr → List Nat
  | [] => []
  | [unit] => [unit.toNat]
  | high :: low :: rest =>
    if isHighSurrogate high && isLowSurrogate low then
      (0x10000 + (high.toNat - 0xD800) * 0x400 + (low.toNat - 0xDC00)) :: codePoints rest
    else high.toNat :: codePoints (low :: rest)

/-- `compareCodePoints(left, right) <= 0`. -/
def codePointLe (left right : JsStr) : Bool := codePoints left ≤ codePoints right

def sortKeys {β : Type*} (props : Props β) : Props β :=
  props.insertionSort fun left right => codePointLe left.1 right.1

section Canonical

variable [JsonText.NumberText]

mutual

/-- The value with the keys of every object sorted; `JSON.stringify` of it is `canonicalStringify`. -/
def sorted (value : Json) : Json :=
  match value with
  | .array items => .array (sortedItems items)
  | .object props => .object (sortKeys (sortedProps props))
  | value => value

def sortedItems (items : List Json) : List Json :=
  match items with
  | [] => []
  | item :: rest => sorted item :: sortedItems rest

def sortedProps (props : List (JsStr × Json)) : List (JsStr × Json) :=
  match props with
  | [] => []
  | (key, value) :: rest => (key, sorted value) :: sortedProps rest

end

def canonicalStringify (value : Json) : JsStr := JsonText.stringify (sorted value)

/-- The parsed bytes when they are the canonical JSON of a value. -/
def parse (bytes : Bytes) : Option Json :=
  match (decoderDecode bytes).bind JsonText.parse with
  | some value => if textEncode (canonicalStringify value) = bytes then some value else none
  | none => none

end Canonical

/-- `Number.isSafeInteger(value) && value >= 0`. -/
def isLength (value : Option Json) : Bool :=
  match value with
  | some (.number (.int value)) => 0 ≤ value && value ≤ maxSafeInteger
  | some (.number .negZero) => true
  | _ => false

def requireHash (value : Option Json) : Option ObjectHash :=
  match value with
  | some (.string value) => if ObjectHash.isObjectHash value then some value else none
  | _ => none

/-- The codecs of `createDefaultClosureVisitorRegistry`. -/
inductive Codec where
  | tree
  | ref
  | rope
  | chunk
  | stateRoot

def Codec.tag : Codec → JsStr
  | .tree => js "tree.v1"
  | .ref => js "ref.v1"
  | .rope => js "rope.v1"
  | .chunk => js "chunk.v1"
  | .stateRoot => js "state-root.v1"

/-- The codec registered under a name. -/
def Codec.get? (name : JsStr) : Option Codec :=
  [Codec.tree, .ref, .rope, .chunk, .stateRoot].find? fun codec => codec.tag = name

def hasOnlyKeys (props : Props Json) (keys : List JsStr) : Bool :=
  props.all fun entry => keys.contains entry.1

/-- The hash of a tree entry `[key, hash]`. -/
def treeEntry (entry : Json) : Option ObjectHash :=
  match entry with
  | .array [.string _, hash] => requireHash (some hash)
  | _ => none

def treeRefs (props : Props Json) : Option (List ObjectHash) :=
  match get? props (js "entries") with
  | some (.array entries) =>
    if hasOnlyKeys props [js "tg", js "entries", js "arr", js "len"] &&
        (match get? props (js "arr") with
          | none => (get? props (js "len")).isNone
          | some (.bool true) => isLength (get? props (js "len"))
          | some _ => false) then
      entries.mapM treeEntry
    else none
  | _ => none

/-- The hash of a rope chunk reference. -/
def ropeChunk (chunk : Json) : Option ObjectHash :=
  match chunk with
  | .object props =>
    if hasOnlyKeys props [js "h", js "s", js "c"] && isLength (get? props (js "s")) &&
        (requireHash (get? props (js "c"))).isSome then
      requireHash (get? props (js "h"))
    else none
  | _ => none

def ropeRefs (props : Props Json) : Option (List ObjectHash) :=
  match get? props (js "chunks") with
  | some (.array chunks) =>
    if hasOnlyKeys props [js "tg", js "enc", js "len", js "chunks"] &&
        get? props (js "enc") = some (.string (js "utf8")) &&
        isLength (get? props (js "len")) then
      chunks.mapM ropeChunk
    else none
  | _ => none

def refRefs (props : Props Json) : Option (List ObjectHash) :=
  if props.length = 3 && isLength (get? props (js "s")) then
    (requireHash (get? props (js "h"))).map ([·])
  else none

def chunkRefs (props : Props Json) : Option (List ObjectHash) :=
  match get? props (js "data") with
  | some (.string _) =>
    if props.length = 3 && get? props (js "enc") = some (.string (js "utf8")) then some [] else none
  | _ => none

def stateRootRefs (props : Props Json) : Option (List ObjectHash) :=
  if props.length = 4 && isLength (get? props (js "rev")) &&
      isLength (get? props (js "s")) then
    (requireHash (get? props (js "h"))).map ([·])
  else none

def Codec.refs (codec : Codec) (props : Props Json) : Option (List ObjectHash) :=
  match codec with
  | .tree => treeRefs props
  | .ref => refRefs props
  | .rope => ropeRefs props
  | .chunk => chunkRefs props
  | .stateRoot => stateRootRefs props

/-- `references(decodeAndValidate(bytes))` of a codec, on the parsed value. -/
def schemaRefs (codec : Codec) (value : Json) : Option (List ObjectHash) :=
  match value with
  | .object props =>
    if get? props (js "tg") = some (.string codec.tag) then codec.refs props else none
  | _ => none

/-- The tag of a record, when it is a string. -/
def tag? (value : Json) : Option JsStr :=
  match value with
  | .object props =>
    match get? props (js "tg") with
    | some (.string tag) => some tag
    | _ => none
  | _ => none

/-- What a value without a tag refers to. With a codec it is rejected, the tree schema included. -/
def plainRefs (codec : Option JsStr) (value : Json) : Option (List ObjectHash) :=
  match codec with
  | none => some []
  | some codec => if codec = Codec.tag .tree then schemaRefs .tree value else none

/-- What an item of the walk refers to. -/
def refs (codec : Option JsStr) (value : Json) : Option (List ObjectHash) :=
  match tag? value with
  | some tag => (Codec.get? (codec.getD tag)).bind fun codec => schemaRefs codec value
  | none => plainRefs codec value

/-- An item on the stack of the walk. -/
structure ClosureRef where
  hash : ObjectHash
  codec : Option JsStr
  deriving DecidableEq

structure BundleRoot where
  hash : ObjectHash
  codec : JsStr
  deriving DecidableEq

/-- A root is an object with its codec or the bytes of a state-root descriptor. -/
inductive ClosureRoot where
  | object (root : BundleRoot)
  | descriptor (bytes : Bytes)

structure ClosureWalk where
  objects : List (ObjectHash × Nat)
  objectCount : Nat
  totalBytes : Nat
  digest : JsStr

section Walk

variable [Sha256] [JsonText.NumberText]

/-- What a root puts on the stack. -/
def rootRefs (root : ClosureRoot) : Option (List ClosureRef) :=
  match root with
  | .descriptor bytes =>
    ((parse bytes).bind (schemaRefs .stateRoot)).map fun hashes => hashes.map fun hash => ⟨hash, none⟩
  | .object root =>
    if ObjectHash.isObjectHash root.hash && (Codec.get? root.codec).isSome then
      some [⟨root.hash, some root.codec⟩]
    else none

def pendingRoots : List ClosureRoot → Option (List ClosureRef)
  | [] => some []
  | root :: rest =>
    (rootRefs root).bind fun items => (pendingRoots rest).map fun others => items ++ others

/-- One turn of the loop: the object must be there, have the right content and fit its codec. -/
def visit (get : ObjectHash → Option Bytes) (item : ClosureRef) : Option (Nat × List ClosureRef) :=
  match get item.hash with
  | some bytes =>
    if hashObject bytes = item.hash then
      ((parse bytes).bind (refs item.codec)).map fun hashes =>
        (bytes.length, hashes.map fun hash => ⟨hash, none⟩)
    else none
  | none => none

/-- Hash order: `localeCompare` on lower-case hexadecimal digits. -/
def sortObjects (objects : List (ObjectHash × Nat)) : List (ObjectHash × Nat) :=
  objects.insertionSort fun left right => left.1 ≤ right.1

def closureDomain : Bytes := textEncode (js "pi-object-bundle-closure-v1" ++ [0])

/-- The bytes of a hash: each pair of digits read as a number. -/
def rawHash : ObjectHash → Bytes
  | high :: low :: rest =>
    UInt8.ofNat ((JsonText.hexValue? high).getD 0 * 16 + (JsonText.hexValue? low).getD 0) :: rawHash rest
  | _ => []

def digestClosure (objects : List (ObjectHash × Nat)) : JsStr :=
  ObjectHash.hex (Sha256.digest (closureDomain ++ beBytes 8 objects.length ++
    objects.flatMap fun object => rawHash object.1 ++ beBytes 8 object.2))

/-- The report on the visited objects. -/
def closureOf (visited : List (ObjectHash × Nat)) : ClosureWalk where
  objects := sortObjects visited
  objectCount := (sortObjects visited).length
  totalBytes := ((sortObjects visited).map Prod.snd).sum
  digest := digestClosure (sortObjects visited)

/-- `CodecClosureWalker.walk` with the default registry. Each visit is of another object of the store,
so its size bounds them. -/
def walk (roots : List ClosureRoot) (store : ObjectStore) : Option ClosureWalk :=
  (pendingRoots roots).bind fun pending =>
    (Worklist.traverse ClosureRef.hash (visit store.get?) pending.reverse [] store.entries.length).map
      closureOf

variable {roots : List ClosureRoot} {item : ClosureRef}

omit [Sha256] in
theorem mem_pendingRoots {pending : List ClosureRef} (hpend : pendingRoots roots = some pending) :
    item ∈ pending ↔ ∃ root ∈ roots, ∃ items, rootRefs root = some items ∧ item ∈ items := by
  induction roots generalizing pending with
  | nil =>
    obtain rfl := Option.some.inj hpend
    simp
  | cons root rest ih =>
    rw [pendingRoots] at hpend
    obtain ⟨items, hitems, hrest⟩ := Option.bind_eq_some_iff.mp hpend
    obtain ⟨others, hoth, rfl⟩ := Option.map_eq_some_iff.mp hrest
    rw [mem_append, ih hoth]
    constructor
    · rintro (hitem | ⟨other, hother, hfound⟩)
      · exact ⟨root, mem_cons_self, items, hitems, hitem⟩
      · exact ⟨other, mem_cons_of_mem _ hother, hfound⟩
    · rintro ⟨other, hother, found, hfound, hitem⟩
      rcases mem_cons.mp hother with rfl | hother
      · rw [hitems] at hfound
        exact .inl (Option.some.inj hfound ▸ hitem)
      · exact .inr ⟨other, hother, found, hfound, hitem⟩

theorem visit_get {get : ObjectHash → Option Bytes}
    {found : Nat × List ClosureRef} (hvisit : visit get item = some found) :
    ∃ bytes hashes, get item.hash = some bytes ∧ hashObject bytes = item.hash ∧
      (parse bytes).bind (refs item.codec) = some hashes ∧
      found = (bytes.length, hashes.map fun hash => ⟨hash, none⟩) := by
  rw [visit] at hvisit
  cases hget : get item.hash with
  | none => rw [hget] at hvisit; exact nomatch hvisit
  | some bytes =>
    rw [hget] at hvisit
    simp only at hvisit
    split_ifs at hvisit with hhash
    obtain ⟨hashes, hhas, rfl⟩ := Option.map_eq_some_iff.mp hvisit
    exact ⟨bytes, hashes, rfl, hhash, hhas, rfl⟩

theorem visit_congr {get other : ObjectHash → Option Bytes}
    (hsame : other item.hash = get item.hash) : visit other item = visit get item := by
  rw [visit, visit, hsame]

theorem walk_eq_some_iff {store : ObjectStore} {result : ClosureWalk} : walk roots store = some result ↔
      ∃ pending visited, pendingRoots roots = some pending ∧
        Worklist.Traverses ClosureRef.hash (visit store.get?) pending.reverse [] visited ∧
        closureOf visited = result := by
  have hkeys : ∀ item found, visit store.get? item = some found → item.hash ∈ store.keys := by
    intro item found hvisit
    obtain ⟨bytes, _, hget, _⟩ := visit_get hvisit
    exact JsMap.has_iff.mp (JsMap.has_of_get? hget)
  have hlen : store.keys.length ≤ store.entries.length := by
    rw [JsMap.keys, length_map]
  rw [walk, Option.bind_eq_some_iff]
  constructor
  · rintro ⟨pending, hpend, hwalk⟩
    obtain ⟨visited, hvis, hres⟩ := Option.map_eq_some_iff.mp hwalk
    exact ⟨pending, visited, hpend, Worklist.traverses_of_traverse hvis, hres⟩
  · rintro ⟨pending, visited, hpend, htrav, hres⟩
    refine ⟨pending, hpend, Option.map_eq_some_iff.mpr ⟨visited, ?_, hres⟩⟩
    exact (Worklist.traverse_eq_some_iff hkeys hlen).mpr htrav

omit [JsonText.NumberText] in
theorem mem_closureOf {visited : List (ObjectHash × Nat)} {object : ObjectHash × Nat} :
    object ∈ (closureOf visited).objects ↔ object ∈ visited :=
  mem_insertionSort _

omit [Sha256] [JsonText.NumberText] in
theorem tag?_of_schemaRefs {codec : Codec} {value : Json} {hashes : List ObjectHash}
    (hsch : schemaRefs codec value = some hashes) : tag? value = some codec.tag := by
  cases value with
  | object props =>
    rw [schemaRefs] at hsch
    split_ifs at hsch with htag
    rw [tag?, htag]
  | _ => exact nomatch hsch

omit [Sha256] [JsonText.NumberText] in
theorem Codec.tag_of_get? {name : JsStr} {codec : Codec} (hget : Codec.get? name = some codec) :
    codec.tag = name := by
  have hfound := find?_some hget
  exact of_decide_eq_true hfound

omit [Sha256] [JsonText.NumberText] in
theorem refs_of_codec {codec : JsStr} {value : Json} {hashes : List ObjectHash}
    (hrefs : refs (some codec) value = some hashes) : refs none value = some hashes := by
  rw [refs] at hrefs ⊢
  cases htag : tag? value with
  | some tag =>
    rw [htag] at hrefs
    obtain ⟨found, hfound, hsch⟩ := Option.bind_eq_some_iff.mp hrefs
    have hname : tag = codec := by
      rw [tag?_of_schemaRefs hsch] at htag
      exact (Option.some.inj htag).symm.trans (Codec.tag_of_get? hfound)
    rw [hname]
    exact hrefs
  | none =>
    rw [htag] at hrefs
    simp only [plainRefs] at hrefs
    split_ifs at hrefs
    rw [tag?_of_schemaRefs hrefs] at htag
    exact nomatch htag

theorem visit_of_codec {get : ObjectHash → Option Bytes}
    {found : Nat × List ClosureRef} (hvisit : visit get item = some found) :
    visit get ⟨item.hash, none⟩ = some found := by
  obtain ⟨bytes, hashes, hget, hhash, hrefs, rfl⟩ := visit_get hvisit
  obtain ⟨value, hvalue, hfound⟩ := Option.bind_eq_some_iff.mp hrefs
  have hplain : refs none value = some hashes := by
    cases hcodec : item.codec with
    | none => rwa [hcodec] at hfound
    | some codec => exact refs_of_codec (hcodec ▸ hfound)
  rw [visit]
  simp only [hget, if_pos hhash, hvalue, Option.bind_some, hplain, Option.map_some]

theorem closed_of_traverses {get : ObjectHash → Option Bytes} {stack : List ClosureRef}
    {visited : List (ObjectHash × Nat)} (htrav : Worklist.Traverses ClosureRef.hash (visit get) stack [] visited) :
    ∀ (item : ClosureRef) (record : Nat) (items : List ClosureRef),
      item.hash ∈ visited.map Prod.fst → visit get item = some (record, items) →
      ∀ ref ∈ items, ref.hash ∈ visited.map Prod.fst := by
  intro item record items hitem hvisit ref href
  obtain ⟨entry, hentry, hhash⟩ := mem_map.mp hitem
  rcases htrav.record hentry with hold | ⟨other, others, hother, hvisitOther, hclos⟩
  · exact absurd hold not_mem_nil
  · have hleft := visit_of_codec hvisit
    have hright := visit_of_codec hvisitOther
    rw [hother, hhash, hleft, Option.some.injEq, Prod.mk.injEq] at hright
    exact hclos ref (hright.2 ▸ href)

/-- **A walk depends on its objects alone.** When a walk from some roots succeeds, a walk from any of
these roots has the same outcome in every store with the same content at the objects of the walk. -/
theorem walk_congr {chosen : List ClosureRoot} {store other : ObjectStore} {result : ClosureWalk}
    (hwalk : walk roots store = some result)
    (hsame : ∀ object ∈ result.objects, other.get? object.1 = store.get? object.1)
    (hroots : ∀ root ∈ chosen, root ∈ roots) : walk chosen other = walk chosen store := by
  obtain ⟨pending, visited, hpend, htrav, rfl⟩ := walk_eq_some_iff.mp hwalk
  have hclos := closed_of_traverses htrav
  have hagree : ∀ item : ClosureRef, item.hash ∈ visited.map Prod.fst →
      visit other.get? item = visit store.get? item := by
    intro item hitem
    obtain ⟨object, hobj, hhash⟩ := mem_map.mp hitem
    exact visit_congr (hhash ▸ hsame object (mem_closureOf.mpr hobj))
  have hstart : ∀ items, pendingRoots chosen = some items →
      ∀ item ∈ items.reverse, item.hash ∈ visited.map Prod.fst := by
    intro items hitems item hitem
    apply htrav.mem_of_stack
    obtain ⟨root, hroot, found, hfound, hmem⟩ :=
      (mem_pendingRoots hitems).mp (mem_reverse.mp hitem)
    exact mem_reverse.mpr ((mem_pendingRoots hpend).mpr ⟨root, hroots root hroot, found, hfound, hmem⟩)
  apply Option.ext
  intro found
  rw [walk_eq_some_iff, walk_eq_some_iff]
  constructor
  · rintro ⟨items, objects, hitems, hother, hfound⟩
    refine ⟨items, objects, hitems, hother.congr (fun item hitem => (hagree item hitem).symm)
      (fun item record refs hitem hvisit => ?_) (hstart items hitems), hfound⟩
    exact hclos item record refs hitem (hagree item hitem ▸ hvisit)
  · rintro ⟨items, objects, hitems, hstore, hfound⟩
    exact ⟨items, objects, hitems, hstore.congr hagree hclos (hstart items hitems), hfound⟩

end Walk

end PiRp.Bundle
