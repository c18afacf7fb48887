import PiRp.JsonlCodec

/-! Loading a JSONL session file. A file written without failures is its lines, each behind the other;
the loader rebuilds the state from it. Every truncation that keeps the header's text is loaded up to
its last complete line, and the file is left with exactly the complete lines. -/

namespace PiRp.Jsonl

open List Session

/-! ### Lines of a file -/

variable {lines : List JsStr} {tail : JsStr}

section

variable (hlines : ∀ line ∈ lines, newline ∉ line)

include hlines

theorem splitOn_lines (htail : newline ∉ tail) :
    (lines.flatMap (· ++ [newline]) ++ tail).splitOn newline = lines ++ [tail] := by
  induction lines with
  | nil => exact splitOn_eq_singleton htail
  | cons line lines ih =>
    rw [flatMap_cons, append_assoc, append_assoc, singleton_append,
      splitOn_append_cons_self_of_not_mem (hlines line mem_cons_self),
      ih fun other hother => hlines other (mem_cons_of_mem _ hother)]
    rfl

theorem physicalLines_terminated : JsonlSessionStorage.physicalLines (lines.flatMap (· ++ [newline])) = lines := by
  have hsplit := splitOn_lines hlines (not_mem_nil : newline ∉ [])
  rw [append_nil] at hsplit
  simp only [JsonlSessionStorage.physicalLines, hsplit, getLast?_concat, if_true, dropLast_concat]

theorem physicalLines_unterminated (htail : newline ∉ tail) (hne : tail ≠ []) :
    JsonlSessionStorage.physicalLines (lines.flatMap (· ++ [newline]) ++ tail) = lines ++ [tail] := by
  have hlast : some tail ≠ some [] := fun h => hne (Option.some.inj h)
  simp only [JsonlSessionStorage.physicalLines, splitOn_lines hlines htail, getLast?_concat, if_neg hlast]

end

theorem intercalate_lines (line : JsStr) (lines : List JsStr) :
    [newline].intercalate (line :: lines) ++ [newline] = (line :: lines).flatMap (· ++ [newline]) := by
  induction lines generalizing line with
  | nil => simp [List.intercalate]
  | cons next lines ih =>
    rw [intercalate_cons_of_ne_nil (cons_ne_nil _ _), append_assoc, append_assoc, ih]
    simp only [flatMap_cons, append_assoc]

section FileText

variable [JsonText.NumberText]

/-- The file with a header and the lines of some mutations. -/
def fileText (header : JsonlV4Header) (mutations : List SessionMutation) : JsStr :=
  encodeHeader header ++ mutations.flatMap encodeMutation

def fileLines (header : JsonlV4Header) (mutations : List SessionMutation) : List JsStr :=
  headerText header :: mutations.map mutationText

section

variable (header : JsonlV4Header)

include header

theorem fileText_eq (mutations : List SessionMutation) :
    fileText header mutations = (fileLines header mutations).flatMap (· ++ [newline]) := by
  rw [fileText, fileLines, flatMap_cons, flatMap_map]
  rfl

theorem fileText_concat (mutations : List SessionMutation) (mutation : SessionMutation) :
    fileText header (mutations ++ [mutation]) = fileText header mutations ++ encodeMutation mutation := by
  rw [fileText, fileText, flatMap_append, flatMap_singleton, append_assoc]

theorem newline_not_mem_fileLines (mutations : List SessionMutation) :
    ∀ line ∈ fileLines header mutations, newline ∉ line := by
  intro line hline
  rcases mem_cons.mp hline with rfl | hline
  · exact newline_not_mem_headerText header
  · obtain ⟨mutation, _, rfl⟩ := mem_map.mp hline
    exact newline_not_mem_mutationText mutation

theorem fileText_norm (mutations : List SessionMutation) :
    fileText header.norm (mutations.map SessionMutation.norm) = fileText header mutations := by
  rw [fileText_eq, fileText_eq, fileLines, fileLines, headerText_norm, map_map]
  congr 2
  exact map_congr_left fun mutation _ => mutationText_norm mutation

end

/-- The text without the newline behind its last line. -/
def completeText (header : JsonlV4Header) (mutations : List SessionMutation) : JsStr :=
  (fileText header mutations).dropLast

section

variable (header : JsonlV4Header)

include header

theorem fileText_split (mutations : List SessionMutation) :
    ∃ lines line, fileLines header mutations = lines ++ [line] ∧ line ≠ [] ∧
      completeText header mutations = lines.flatMap (· ++ [newline]) ++ line := by
  rcases eq_nil_or_concat mutations with rfl | ⟨front, last, rfl⟩
  · refine ⟨[], headerText header, rfl, headerText_ne_nil header, ?_⟩
    rw [completeText, fileText, flatMap_nil, append_nil, encodeHeader, dropLast_concat]
    rfl
  · refine ⟨fileLines header front, mutationText last, ?_, mutationText_ne_nil last, ?_⟩
    · rw [concat_eq_append, fileLines, map_append]
      rfl
    · rw [completeText, concat_eq_append, fileText_concat, encodeMutation, ← append_assoc,
        dropLast_concat, fileText_eq]

theorem completeText_append (mutations : List SessionMutation) :
    completeText header mutations ++ [newline] = fileText header mutations := by
  obtain ⟨lines, line, hlines, _, hcom⟩ := fileText_split header mutations
  rw [hcom, fileText_eq, hlines, flatMap_append, flatMap_singleton, append_assoc]

theorem length_completeText (mutations : List SessionMutation) :
    (completeText header mutations).length + 1 = (fileText header mutations).length := by
  rw [← completeText_append, length_append, length_singleton]

theorem fileText_starts {shorter longer : List SessionMutation}
    (hstar : shorter <+: longer) : fileText header shorter <+: fileText header longer := by
  obtain ⟨rest, rfl⟩ := hstar
  rw [fileText, fileText, flatMap_append, ← append_assoc]
  exact prefix_append _ _

end

/-- What a truncation keeps of a file: its complete lines, with or without the last newline, and
possibly a strict part of the next line. -/
inductive Keeps (header : JsonlV4Header) (mutations : List SessionMutation) :
    Option SessionMutation → JsStr → Prop
  | terminated {next : Option SessionMutation} :
      Keeps header mutations next (fileText header mutations)
  | unterminated {next : Option SessionMutation} :
      Keeps header mutations next (completeText header mutations)
  | torn {mutation : SessionMutation} {tail rest : JsStr}
      (htext : mutationText mutation = tail ++ rest) (htail : tail ≠ []) (hrest : rest ≠ []) :
      Keeps header mutations (some mutation) (fileText header mutations ++ tail)

variable {kept : JsStr}

theorem Keeps.weaken {header : JsonlV4Header} {mutations : List SessionMutation} {next other : Option SessionMutation}
    (hkeeps : Keeps header mutations next kept) (hnext : ∀ mutation, next = some mutation → other = some mutation) :
    Keeps header mutations other kept := by
  cases hkeeps with
  | terminated => exact .terminated
  | unterminated => exact .unterminated
  | torn htext htail hrest => exact hnext _ rfl ▸ .torn htext htail hrest

theorem completeText_concat (header : JsonlV4Header) (mutations : List SessionMutation) (mutation : SessionMutation) :
    completeText header (mutations ++ [mutation]) = fileText header mutations ++ mutationText mutation := by
  rw [completeText, fileText_concat, encodeMutation, ← append_assoc, dropLast_concat]

/-- **Every truncation that keeps the header's text ends in or behind one line.** -/
theorem exists_keeps {header : JsonlV4Header} {mutations : List SessionMutation}
    (hhead : headerText header <+: kept) (hkept : kept <+: fileText header mutations) :
    ∃ count ≤ mutations.length, Keeps header (mutations.take count) mutations[count]? kept := by
  induction mutations using List.reverseRecOn with
  | nil =>
    refine ⟨0, Nat.le_refl _, ?_⟩
    rw [fileText, flatMap_nil, append_nil, encodeHeader, prefix_concat_iff] at hkept
    rcases hkept with rfl | hkept
    · have hfile : headerText header ++ [newline] = fileText header [] := by
        rw [fileText, flatMap_nil, append_nil, encodeHeader]
      rw [hfile]
      exact .terminated
    · obtain rfl := hhead.eq_of_length_le hkept.length_le
      have hcom : headerText header = completeText header [] := by
        rw [completeText, fileText, flatMap_nil, append_nil, encodeHeader, dropLast_concat]
      rw [hcom]
      exact .unterminated
  | append_singleton mutations mutation ih =>
    rw [fileText_concat] at hkept
    rcases prefix_or_prefix_of_prefix hkept (prefix_append _ _) with hshort | hlong
    · obtain ⟨count, hcount, hkeeps⟩ := ih hshort
      refine ⟨count, hcount.trans (by simp), ?_⟩
      rw [take_append_of_le_length hcount]
      refine hkeeps.weaken fun next hnext => ?_
      obtain ⟨hlt, _⟩ := List.getElem?_eq_some_iff.mp hnext
      rw [getElem?_append_left hlt, hnext]
    obtain ⟨tail, rfl⟩ := hlong
    rw [prefix_append_right_inj, encodeMutation, prefix_concat_iff] at hkept
    rcases hkept with rfl | ⟨rest, htext⟩
    · refine ⟨(mutations ++ [mutation]).length, Nat.le_refl _, ?_⟩
      rw [take_length, ← encodeMutation, ← fileText_concat]
      exact .terminated
    by_cases hrest : rest = []
    · refine ⟨(mutations ++ [mutation]).length, Nat.le_refl _, ?_⟩
      rw [hrest, append_nil] at htext
      rw [take_length, htext, ← completeText_concat]
      exact .unterminated
    · refine ⟨mutations.length, by simp, ?_⟩
      rw [take_left, getElem?_concat_length]
      by_cases htail : tail = []
      · rw [htail, append_nil]
        exact .terminated
      · exact .torn htext.symm htail hrest

theorem Keeps.length {header : JsonlV4Header} {mutations : List SessionMutation}
    {next : Option SessionMutation} (hkeeps : Keeps header mutations next kept) :
    (completeText header mutations).length ≤ kept.length ∧ ∀ mutation, next = some mutation →
        kept.length < (completeText header (mutations ++ [mutation])).length := by
  have hlen := length_completeText header mutations
  have hpos : ∀ mutation, 0 < (mutationText mutation).length := fun mutation =>
    length_pos_of_ne_nil (mutationText_ne_nil mutation)
  cases hkeeps with
  | terminated =>
    refine ⟨by omega, fun mutation _ => ?_⟩
    have hmut := hpos mutation
    rw [completeText_concat, length_append]
    omega
  | unterminated =>
    refine ⟨Nat.le_refl _, fun mutation _ => ?_⟩
    have hmut := hpos mutation
    rw [completeText_concat, length_append]
    omega
  | torn htext htail hrest =>
    have hrestLength := length_pos_of_ne_nil hrest
    have htextLength := congrArg List.length htext
    rw [length_append] at htextLength ⊢
    refine ⟨by omega, fun other hother => ?_⟩
    obtain rfl := Option.some.inj hother
    rw [completeText_concat, length_append]
    omega

theorem Keeps.complete_iff {header : JsonlV4Header} {mutations : List SessionMutation}
    {count : Nat} (hkept : kept <+: fileText header mutations) (hcount : count ≤ mutations.length)
    (hkeeps : Keeps header (mutations.take count) mutations[count]? kept) {index : Nat}
    (hindex : index ≤ mutations.length) : completeText header (mutations.take index) <+: kept ↔ index ≤ count := by
  obtain ⟨hleast, hmost⟩ := hkeeps.length
  have hmono : ∀ {shorter longer : Nat}, shorter ≤ longer →
      (completeText header (mutations.take shorter)).length ≤
        (completeText header (mutations.take longer)).length := fun {shorter longer} hle => by
    have hstar := (fileText_starts header ( take_prefix_take_left hle :
      mutations.take shorter <+: mutations.take longer)).length_le
    rw [← length_completeText, ← length_completeText] at hstar
    omega
  constructor
  · intro hcom
    by_contra hlt
    rw [Nat.not_le] at hlt
    have hbound : count < mutations.length := by omega
    have hnext := hmost _ (getElem?_eq_getElem hbound)
    rw [← take_succ_eq_append_getElem hbound] at hnext
    have hlong := hmono (show count + 1 ≤ index from hlt)
    have hshort := hcom.length_le
    omega
  · intro hle
    refine prefix_of_prefix_length_le ?_ hkept ((hmono hle).trans hleast)
    exact ( dropLast_prefix _).trans (fileText_starts header ( take_prefix _ _))

end FileText

/-! ### The mutation loop -/

variable [JsonText.NumberText] [JsNumber.Addition]

open JsonlSessionStorage

variable {next : SessionState}

theorem loadLines_mutations (path : JsStr) {mutations : List SessionMutation}
    {state : SessionState} (hrun : state.AppliesAll mutations next)
    (hsafe : ∀ mutation ∈ mutations, SafeNumbers mutation) (rest : List JsStr) (index : Nat) :
    loadLines path index state.norm (mutations.map mutationText ++ rest) =
      loadLines path (index + mutations.length) next.norm rest := by
  induction hrun generalizing index with
  | nil => rfl
  | @cons state next last mutation mutations happl _ ih =>
    rw [map_cons, cons_append, loadLines, parseMutation_mutationText (hsafe mutation mem_cons_self)]
    simp only [happl.norm.applyMutation_eq]
    rw [ih fun other hother => hsafe other (mem_cons_of_mem _ hother), length_cons,
      Nat.add_assoc, Nat.add_comm 1]

theorem loadLines_all (path : JsStr) {mutations : List SessionMutation}
    (hrun : SessionState.initial.AppliesAll mutations next) (hsafe : ∀ mutation ∈ mutations, SafeNumbers mutation) :
    loadLines path 1 .initial (mutations.map mutationText) = .ok (next.norm, false) := by
  have hlines := loadLines_mutations path hrun hsafe [] 1
  rwa [append_nil, SessionState.norm_initial, loadLines] at hlines

theorem loadLines_torn (path : JsStr) {mutations : List SessionMutation}
    (hrun : SessionState.initial.AppliesAll mutations next)
    (hsafe : ∀ mutation ∈ mutations, SafeNumbers mutation) {message : JsStr}
    (htail : parseMutation tail = .error ⟨.syntaxError, message⟩) :
    loadLines path 1 .initial (mutations.map mutationText ++ [tail]) = .ok (next.norm, true) := by
  have hlines := loadLines_mutations path hrun hsafe [tail] 1
  rw [SessionState.norm_initial] at hlines
  rw [hlines, loadLines, htail]
  simp only [and_self, if_true]

/-! ### Loading -/

/-- The storage a file with these mutations is loaded as. -/
def loaded (path : JsStr) (header : JsonlV4Header) (mutations : List SessionMutation)
    (state : SessionState) : JsonlSessionStorage :=
  ⟨path, header.norm, fileText header mutations, state.norm⟩

variable {path : JsStr} {header : JsonlV4Header} {mutations : List SessionMutation}
  {state : SessionState}

theorem load_of_lines {content : JsStr} {isTornTail : Bool}
    (hlines : physicalLines content = headerText header :: lines)
    (hload : loadLines path 1 .initial lines = .ok (state, isTornTail)) : load path content = .ok ⟨path, header.norm,
      if isTornTail then [newline].intercalate (headerText header :: lines.dropLast) ++ [newline]
      else if content.getLast? = some newline then content else content ++ [newline], state⟩ := by
  rw [load, hlines]
  simp only [if_neg (headerText_ne_nil header), parseHeader_headerText, hload, ok_bind]
  rfl

section

variable (hrun : SessionState.initial.AppliesAll mutations state)

include hrun

theorem load_fileText (hsafe : ∀ mutation ∈ mutations, SafeNumbers mutation) :
    load path (fileText header mutations) = .ok (loaded path header mutations state) := by
  have hlines : physicalLines (fileText header mutations) =
      headerText header :: mutations.map mutationText := by
    rw [fileText_eq, physicalLines_terminated (newline_not_mem_fileLines header mutations)]
    rfl
  have hlast : (fileText header mutations).getLast? = some newline := by
    rw [← completeText_append, getLast?_concat]
  rw [load_of_lines hlines (loadLines_all path hrun hsafe), if_neg Bool.false_ne_true, if_pos hlast]
  rfl

theorem load_completeText (hsafe : ∀ mutation ∈ mutations, SafeNumbers mutation) :
    load path (completeText header mutations) = .ok (loaded path header mutations state) := by
  obtain ⟨front, line, hfront, hline, hcom⟩ := fileText_split header mutations
  have hnew : ∀ other ∈ front ++ [line], newline ∉ other :=
    hfront ▸ newline_not_mem_fileLines header mutations
  have hlines : physicalLines (completeText header mutations) =
      headerText header :: mutations.map mutationText := by
    rw [hcom, physicalLines_unterminated (fun other hother => hnew other (mem_append_left _ hother))
      (hnew line (mem_append_right _ (mem_singleton_self _))) hline, ← hfront]
    rfl
  have hlast : (completeText header mutations).getLast? ≠ some newline := by
    rw [hcom, getLast?_append_of_ne_nil _ hline]
    exact fun h => hnew line (mem_append_right _ (mem_singleton_self _))
      (mem_of_getLast? h)
  rw [load_of_lines hlines (loadLines_all path hrun hsafe), if_neg Bool.false_ne_true, if_neg hlast,
    completeText_append]
  rfl

theorem load_torn (hsafe : ∀ mutation ∈ mutations, SafeNumbers mutation) {mutation : SessionMutation}
    {rest : JsStr} (htext : mutationText mutation = tail ++ rest) (htail : tail ≠ []) (hrest : rest ≠ []) :
    load path (fileText header mutations ++ tail) = .ok (loaded path header mutations state) := by
  have hnew : newline ∉ tail := fun h =>
    newline_not_mem_mutationText mutation (htext ▸ mem_append_left _ h)
  have hlines : physicalLines (fileText header mutations ++ tail) =
      headerText header :: (mutations.map mutationText ++ [tail]) := by
    rw [fileText_eq, physicalLines_unterminated (newline_not_mem_fileLines header mutations) hnew htail]
    rfl
  rw [load_of_lines hlines (loadLines_torn path hrun hsafe (parseMutation_truncated htext hrest)),
    if_pos rfl, dropLast_concat, intercalate_lines]
  rw [← fileLines, ← fileText_eq]
  rfl

end

/-- **Loading what a truncation keeps.** -/
theorem Keeps.load {next : Option SessionMutation} {kept : JsStr} (hkeeps : Keeps header mutations next kept)
    (hrun : SessionState.initial.AppliesAll mutations state) (hsafe : ∀ mutation ∈ mutations, SafeNumbers mutation) :
    load path kept = .ok (loaded path header mutations state) := by
  cases hkeeps with
  | terminated => exact load_fileText hrun hsafe
  | unterminated => exact load_completeText hrun hsafe
  | torn htext htail hrest => exact load_torn hrun hsafe htext htail hrest

end PiRp.Jsonl
