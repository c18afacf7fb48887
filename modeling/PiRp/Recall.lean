import Mathlib.Algebra.Order.Field.Rat
import Mathlib.Data.List.Lex
import Mathlib.Order.WithBot
import PiRp.JsMap
import PiRp.JsOccurrences
import PiRp.SortedPlace

/-! The scorer of `packages/memory/src/recall.ts`: the keyword overlap of a node with the queries, the fusion of the
two vector views, and the ranking. Scores are exact rational numbers. -/

namespace PiRp.Recall

def vecAbsFloor : ℚ := 3 / 10

def rrfK : ℚ := 30

structure MemoryNode where
  nodeId : JsStr
  uri : JsStr
  content : JsStr
  disclosure : Option JsStr
  importance : ℚ
  worldTs : Option JsStr
  updatedTs : JsStr
  deriving DecidableEq

structure VectorHit where
  score : ℚ
  segIndex : Nat
  disc : Option ℚ
  deriving DecidableEq

inductive RecallMode where
  | vector
  | keyword
  deriving DecidableEq

structure SearchOptions where
  queries : List JsStr
  topK : Int
  minScore : ℚ
  keywordMinScore : Option ℚ
  nowDays : ℚ
  requireKeywordHit : Option Bool

structure RecalledItem where
  nodeId : JsStr
  uri : JsStr
  disclosure : Option JsStr
  summary : JsStr
  excerpt : JsStr
  content : JsStr
  score : ℚ
  kw : ℚ
  vec : ℚ
  bm25 : Option ℚ
  deriving DecidableEq

/-! ### Texts -/

/-- The text with every run of white space that is not yet passed as one blank. -/
def collapseSpaces (inside : Bool) (text : JsStr) : JsStr :=
  match text with
  | [] => []
  | unit :: rest =>
    if JsStr.isWhitespace unit then if inside then collapseSpaces true rest else 0x20 :: collapseSpaces true rest
    else unit :: collapseSpaces false rest

/-- `text.replace(/\r?\n+/g, " ")`; `inside` says that the last unit was a line feed. -/
def flattenLines (inside : Bool) (text : JsStr) : JsStr :=
  match text with
  | [] => []
  | unit :: rest =>
    if unit = 0x0A then if inside then flattenLines true rest else 0x20 :: flattenLines true rest
    else if unit = 0x0D ∧ rest.head? = some 0x0A then 0x20 :: flattenLines true rest
    else unit :: flattenLines false rest

def ellipsis : JsStr := [0x2026, 0x2026]

def summarize (content : JsStr) : JsStr :=
  let flat := JsStr.trim (flattenLines false content)
  if 80 < flat.length then flat.take 80 ++ ellipsis else flat

/-- `text.toLowerCase()`, as far as a token can tell: the letters that become latin ones. -/
def toLowerCase (text : JsStr) : JsStr :=
  text.flatMap fun unit =>
    if 0x41 ≤ unit.toNat ∧ unit.toNat ≤ 0x5A then [unit + 0x20]
    else if unit = 0x212A then [0x6B]
    else if unit = 0x0130 then [0x69, 0x0307]
    else [unit]

def isLatinUnit (unit : UInt16) : Bool :=
  (0x61 ≤ unit.toNat && unit.toNat ≤ 0x7A) || (0x30 ≤ unit.toNat && unit.toNat ≤ 0x39)

def isCjkUnit (unit : UInt16) : Bool := 0x4E00 ≤ unit.toNat && unit.toNat ≤ 0x9FFF

/-- `text.match(/[a-z0-9]+/g)`; `word` is what was read of a match. -/
def latinWords (word text : JsStr) : List JsStr :=
  match text with
  | [] => if word = [] then [] else [word]
  | unit :: rest =>
    if isLatinUnit unit then latinWords (word ++ [unit]) rest
    else if word = [] then latinWords [] rest
    else word :: latinWords [] rest

def bigrams (cjk : JsStr) : List JsStr :=
  match cjk with
  | first :: second :: rest => [first, second] :: bigrams (second :: rest)
  | _ => []

def tokenizeForMatch (text : JsStr) : List JsStr :=
  let cjk := text.filter isCjkUnit
  (latinWords [] (toLowerCase text) ++ bigrams cjk ++ if cjk.length = 1 then [cjk] else []).eraseDups

/-- A range of a text. -/
structure Range where
  start : Int
  stop : Int

/-- The occurrence of a token that starts first. -/
def firstTokenHit (content : JsStr) (tokens : List JsStr) : Option Range :=
  if tokens = [] ∨ content = [] then none
  else tokens.foldl (fun best token =>
    if token = [] then best
    else match JsStr.indexOf token (toLowerCase content) with
      | none => best
      | some position =>
        match best with
        | some hit => if (position : Int) < hit.start then some ⟨position, position + token.length⟩ else best
        | none => some ⟨position, position + token.length⟩) none

/-- `text.slice(start, stop)` for a start and an end from the front. -/
def slice (text : JsStr) (start stop : Int) : JsStr := (text.drop start.toNat).take (stop.toNat - start.toNat)

def excerptLen : Int := 200

def windowAround (content : JsStr) (hit : Range) : JsStr :=
  let hitLen := hit.stop - hit.start
  let window : Range :=
    if excerptLen ≤ hitLen then ⟨hit.start, hit.start + excerptLen⟩
    else
      let budget := excerptLen - hitLen
      let leftRoom := hit.start
      let rightRoom := content.length - hit.stop
      let left := min (budget / 2) leftRoom
      let right := min (budget - left) rightRoom
      let left := left + min (budget - left - right) (leftRoom - left)
      ⟨hit.start - left, hit.stop + right⟩
  let flat := JsStr.trim (collapseSpaces false (slice content window.start window.stop))
  let clipped := if excerptLen < flat.length then flat.take 200 ++ ellipsis else flat
  (if 0 < window.start then ellipsis else []) ++ clipped ++
    if window.stop < content.length then ellipsis else []

/-- The segment of the embedded text, in the content of the node. -/
def segmentRangeInDoc (doc : MemoryNode) (segIndex : Nat) : Option Range :=
  let prefixLen : Int := doc.uri.length + 1 + (doc.disclosure.getD []).length + 1
  let segStart : Int := segIndex * (500 - 80)
  let start := min (max (segStart - prefixLen) 0) doc.content.length
  let stop := min (max (segStart + 500 - prefixLen) 0) doc.content.length
  if start < stop then some ⟨start, stop⟩ else none

def buildExcerpt (content : JsStr) (queryTokens : List JsStr) (hit : Option Range) : JsStr :=
  let tokenHit := firstTokenHit content queryTokens
  let fallback := match tokenHit with
    | some token => windowAround content token
    | none => summarize content
  match hit with
  | none => fallback
  | some hit =>
    match tokenHit with
    | some token =>
      if hit.start ≤ token.start ∧ token.stop ≤ hit.stop then windowAround content token
      else within hit fallback
    | none => within hit fallback
where
  /-- The window around the hit, unless nothing of it is in the content. -/
  within (hit : Range) (fallback : JsStr) : JsStr :=
    let start := min (max hit.start 0) content.length
    let stop := min (max hit.stop 0) content.length
    if start < stop then windowAround content ⟨start, stop⟩ else fallback

/-! ### Days -/

def isDigit (unit : UInt16) : Bool := 0x30 ≤ unit.toNat && unit.toNat ≤ 0x39

def digitsValue (digits : JsStr) : Int := digits.foldl (fun value unit => value * 10 + (unit.toNat - 0x30)) 0

def isLeapYear (year : Int) : Bool := year % 4 = 0 && (year % 100 ≠ 0 || year % 400 = 0)

/-- The days of the months before the month, which is counted from 0. -/
def daysBefore (leap : Bool) (month : Nat) : Int :=
  ([31, if leap then 29 else 28, 31, 30, 31, 30, 31, 31, 30, 31, 30, 31].take month).sum

/-- `Date.UTC(year, month, day)` in days; the years 0 to 99 are those of the twentieth century. -/
def utcDays (year month day : Int) : Int :=
  let fullYear := if 0 ≤ year ∧ year ≤ 99 then 1900 + year else year
  let year := fullYear + month / 12
  365 * (year - 1970) + (year - 1969) / 4 - (year - 1901) / 100 + (year - 1601) / 400 +
    daysBefore (isLeapYear year) (month % 12).toNat + day - 1

def toEpochDays (ts : Option JsStr) : Option Int :=
  match ts with
  | some (y1 :: y2 :: y3 :: y4 :: dash :: m1 :: m2 :: dash' :: d1 :: d2 :: _) =>
    if [y1, y2, y3, y4, m1, m2, d1, d2].all isDigit ∧ dash = 0x2D ∧ dash' = 0x2D then
      some (utcDays (digitsValue [y1, y2, y3, y4]) (digitsValue [m1, m2] - 1) (digitsValue [d1, d2]))
    else none
  | _ => none

/-! ### Scores -/

def importanceScore (importance : ℚ) : ℚ := min (max importance 0) 10 / 10

def recencyBoost (docTs : Option JsStr) (nowDays : ℚ) : ℚ :=
  match toEpochDays docTs with
  | none => 0
  | some days =>
    -- A day that is still to come is as recent as this week.
    let delta := nowDays - days
    if delta ≤ 7 then 8 / 100 else if delta ≤ 30 then 4 / 100 else if delta ≤ 90 then 2 / 100 else 0

def keywordScore (queryTokens : List JsStr) (doc : MemoryNode) (extraTerms : JsStr) : ℚ :=
  if queryTokens = [] then 0
  else
    let text := JsStr.join (js " ") [doc.uri, doc.disclosure.getD [], extraTerms, doc.content]
    let docTokens := tokenizeForMatch text
    if docTokens = [] then 0
    else
      let docMembership := docTokens ++ (text.filter isCjkUnit).map fun unit => [unit]
      let querySet := queryTokens.eraseDups
      let hits := querySet.countP fun token => docMembership.contains token
      let covered := docTokens.countP fun token => querySet.contains token
      let byQuery : ℚ := hits / querySet.length
      let byDoc : ℚ := min 1 ((covered : ℚ) / docTokens.length * (14 / 10))
      max byQuery byDoc

/-! ### The vector views -/

/-- The rank of the id in a list of ids that was made into a map. -/
def rankIn (ids : List JsStr) (id : JsStr) : Option Nat := if id ∈ ids then some (ids.idxOf id + 1) else none

/-- What a view adds to the score of a node of the rank. -/
def rrfShare (rank : Option Nat) : ℚ :=
  match rank with
  | some rank => 1 / (rrfK + rank)
  | none => 0

def VectorHit.discloses (hit : VectorHit) : Bool :=
  match hit.disc with
  | some disc => vecAbsFloor ≤ disc
  | none => false

/-- `vecScores.get(id)?.score ?? 0`. -/
def bodyScore (vecScores : JsMap JsStr VectorHit) (id : JsStr) : ℚ :=
  match vecScores.get? id with
  | some hit => hit.score
  | none => 0

/-- The ids that the body view ranks, in the order of the map. -/
def bodyIds (vecScores : JsMap JsStr VectorHit) : List JsStr :=
  (vecScores.entries.filter fun entry => 0 < entry.2.score).map Prod.fst

/-- The ids that the disclosure view ranks, with their cosines. -/
def discIds (vecScores : JsMap JsStr VectorHit) : List (JsStr × ℚ) :=
  (vecScores.entries.filter fun entry => entry.2.discloses).map fun entry => (entry.1, entry.2.disc.getD 0)

/-- The share of a node before it is divided by the greatest one. -/
def rrfSum (vecScores : JsMap JsStr VectorHit) (entry : JsStr × VectorHit) : ℚ :=
  if max entry.2.score (entry.2.disc.getD 0) < vecAbsFloor then 0
  else
    0 + rrfShare (rankIn (sortedByKey (bodyScore vecScores) (bodyIds vecScores)) entry.1) +
      rrfShare (rankIn ((sortedByKey Prod.snd (discIds vecScores)).map Prod.fst) entry.1)

def fuseVectorViews (vecScores : JsMap JsStr VectorHit) : Option (JsMap JsStr ℚ) :=
  if discIds vecScores = [] then none
  else
    let most := vecScores.entries.foldl (fun most entry =>
      if most < rrfSum vecScores entry then rrfSum vecScores entry else most) 0
    some
      { entries := vecScores.entries.map fun entry =>
          (entry.1, if 0 < most then rrfSum vecScores entry / most else rrfSum vecScores entry)
        nodup := by
          rw [List.map_map]
          exact vecScores.nodup }

/-! ### The ranking -/

/-- The order of two texts by their code units. -/
def units (text : JsStr) : List Nat := text.map UInt16.toNat

def bm25OrInfinity (item : RecalledItem) : WithTop ℚ :=
  match item.bm25 with
  | some bm25 => (bm25 : WithTop ℚ)
  | none => ⊤

/-- `byId.get(item.node_id)?.importance ?? 0`. -/
def importanceOf (byId : JsMap JsStr MemoryNode) (item : RecalledItem) : ℚ :=
  ((byId.get? item.nodeId).map MemoryNode.importance).getD 0

/-- `byId.get(item.node_id)?.updated_ts ?? ""`. -/
def updatedOf (byId : JsMap JsStr MemoryNode) (item : RecalledItem) : JsStr :=
  ((byId.get? item.nodeId).map MemoryNode.updatedTs).getD []

/-- The comparison of two items does not put the second one first. -/
def precedes (byId : JsMap JsStr MemoryNode) (left right : RecalledItem) : Bool :=
  if right.score ≠ left.score then right.score < left.score
  else if right.kw ≠ left.kw then right.kw < left.kw
  else if right.vec ≠ left.vec then right.vec < left.vec
  else if bm25OrInfinity left ≠ bm25OrInfinity right then bm25OrInfinity left < bm25OrInfinity right
  else if importanceOf byId right ≠ importanceOf byId left then importanceOf byId right < importanceOf byId left
  else if units (updatedOf byId right) ≠ units (updatedOf byId left) then
    units (updatedOf byId right) < units (updatedOf byId left)
  else units left.uri ≤ units right.uri

/-- `items.slice(0, count)`. -/
def firstItems (items : List RecalledItem) (count : Int) : List RecalledItem :=
  items.take (if count < 0 then items.length + count else count).toNat

section Rank

variable (options : SearchOptions) (vecScores : Option (JsMap JsStr VectorHit)) (mode : RecallMode)
  (bm25 : Option (JsMap JsStr ℚ)) (glossaryTerms : Option (JsMap JsStr JsStr))

/-- The vector component of a node's score. -/
def vectorOf (id : JsStr) : ℚ :=
  match mode, vecScores with
  | .vector, some vecScores =>
    match fuseVectorViews vecScores with
    | some fused => (fused.get? id).getD 0
    | none => bodyScore vecScores id
  | _, _ => 0

/-- The best overlap of a query with the node. -/
def keywordOf (doc : MemoryNode) : ℚ :=
  let extraTerms := (glossaryTerms.bind (JsMap.get? · doc.nodeId)).getD []
  (options.queries.map tokenizeForMatch).foldl (fun kw tokens =>
    let overlap := keywordScore tokens doc extraTerms
    if kw < overlap then overlap else kw) 0

def scoreNode (doc : MemoryNode) : RecalledItem :=
  let intentTokens := ((options.queries.map tokenizeForMatch).head?).getD []
  let vecHit := if mode = .vector then vecScores.bind (JsMap.get? · doc.nodeId) else none
  let vec := vectorOf vecScores mode doc.nodeId
  let kw := keywordOf options glossaryTerms doc
  { nodeId := doc.nodeId
    uri := doc.uri
    disclosure := doc.disclosure
    summary := summarize doc.content
    excerpt := buildExcerpt doc.content intentTokens (vecHit.bind fun hit => segmentRangeInDoc doc hit.segIndex)
    content := doc.content
    score := 55 / 100 * vec + 3 / 10 * kw + 15 / 100 * importanceScore doc.importance +
      recencyBoost doc.worldTs options.nowDays
    kw := kw
    vec := vec
    bm25 := bm25.bind (JsMap.get? · doc.nodeId) }

def rank (pool : List MemoryNode) : List RecalledItem :=
  let scored := pool.map (scoreNode options vecScores mode bm25 glossaryTerms)
  let byId := pool.foldl (fun byId doc => byId.set doc.nodeId doc) JsMap.empty
  let sorted := scored.insertionSort fun left right => precedes byId left right
  let requireHit := options.requireKeywordHit.getD (mode = .keyword)
  let floor := if mode = .keyword then options.keywordMinScore.getD options.minScore else options.minScore
  firstItems ((sorted.filter fun item => floor ≤ item.score).filter fun item => !requireHit || 0 < item.kw) options.topK

end Rank

end PiRp.Recall
