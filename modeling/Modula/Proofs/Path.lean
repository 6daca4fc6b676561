import Mathlib.Data.List.DropRight
import Modula.Path
import Modula.Proofs.Text.Lossy

/-! # Paths and their transcripts

A path is compared by its components, which its segments give. A name that is put behind a path is
one more component at its end (`components_push`), and the parent of a path that ends in a name has
the components before that name (`components_eq_parent`); slashes that say nothing and dots between
slashes do not matter to either.

* `IsStem`, `IsExtension`: the part of a name before its last dot, and what may take the place of
  the rest.
* `components_transcript_self`: a path that ends in the extension is its own transcript.
* `transcript_naming`: where the transcript of a path is and what it is called. -/

namespace Modula.Path
set_option autoImplicit false

variable {p : Path} {bs first f n s : List UInt8} {ss rest init : List (List UInt8)}
  {c : Component} {ext : String}

/-! ## Segments -/

theorem slash_not_mem_of_split (h : s ∈ split bs) : slash ∉ s := by
  induction bs generalizing s with
  | nil =>
    rw [split, List.mem_singleton] at h
    simp [h]
  | cons b bs ih =>
    rw [split] at h
    split at h
    · rcases List.mem_cons.mp h with rfl | hs
      · exact List.not_mem_nil
      · exact ih hs
    · next hb =>
      split at h
      · next hn => exact absurd hn (split_ne_nil bs)
      · next t ts ht =>
        rw [ht] at ih
        rcases List.mem_cons.mp h with rfl | hs
        · rw [List.mem_cons, not_or]
          exact ⟨fun e => hb e.symm, ih List.mem_cons_self⟩
        · exact ih (List.mem_cons_of_mem t hs)

theorem split_of_not_mem (h : slash ∉ bs) : split bs = [bs] := by
  induction bs with
  | nil => rfl
  | cons b bs ih =>
    rw [List.mem_cons, not_or] at h
    rw [split, if_neg (fun e => h.1 e.symm), ih h.2]

theorem split_append_slash (bs cs : List UInt8) :
    split (bs ++ slash :: cs) = split bs ++ split cs := by
  induction bs with
  | nil => simp [split]
  | cons b bs ih =>
    rw [List.cons_append, split, split, ih]
    cases hs : split bs with
    | nil => exact absurd hs (split_ne_nil bs)
    | cons t ts => split <;> rfl

theorem split_join (hne : ss ≠ []) (h : ∀ s ∈ ss, slash ∉ s) :
    split (join ss) = ss := by
  fun_induction join ss with
  | case1 => exact absurd rfl hne
  | case2 s => exact split_of_not_mem (h s List.mem_cons_self)
  | case3 s ss hss ih =>
    have hs := split_of_not_mem (h s List.mem_cons_self)
    rw [split_append_slash, hs, ih hss fun t ht => h t (List.mem_cons_of_mem s ht)]
    rfl

theorem trim_eq (ss : List (List UInt8)) : trim ss = ss.rdropWhile isIdle := rfl

theorem component?_of_isIdle (h : isIdle s = true) : component? s = none :=
  if_pos h

/-- A segment that stands for itself, neither idle nor the step up. -/
structure IsName (s : List UInt8) : Prop where
  no_slash : slash ∉ s
  ne_nil : s ≠ []
  ne_dot : s ≠ [dot]
  ne_dots : s ≠ [dot, dot]

theorem IsName.component? (h : IsName s) : component? s = some (.name s) := by
  simp [Path.component?, isIdle, h.ne_nil, h.ne_dot, h.ne_dots]

theorem eq_of_component? (h : component? s = some (.name n)) : s = n := by
  unfold component? at h
  split_ifs at h with hi hd
  · cases h
  · exact Component.name.inj (Option.some.inj h)

theorem exists_component? (h : isIdle s = false) : ∃ c, component? s = some c := by
  by_cases hd : s = [dot, dot]
  · subst hd
    exact ⟨.up, rfl⟩
  · exact ⟨.name s, by simp [component?, h, hd]⟩

theorem component?_nil : component? [] = none := component?_of_isIdle rfl

theorem filterMap_trim (ss : List (List UInt8)) :
    (trim ss).filterMap component? = ss.filterMap component? := by
  induction ss using List.reverseRecOn with
  | nil => rfl
  | append_singleton ss s ih =>
    rw [trim_eq, List.rdropWhile_concat]
    split
    · next hs =>
      rw [← trim_eq, ih, List.filterMap_append]
      simp [component?_of_isIdle hs]
    · rfl

theorem mem_of_mem_trim (h : s ∈ trim ss) : s ∈ ss :=
  (List.rdropWhile_prefix isIdle ss).subset h

theorem isIdle_of_trim (h : trim ss = init ++ [s]) : isIdle s = false := by
  have hne : ss.rdropWhile isIdle ≠ [] := by
    rw [← trim_eq, h]
    simp
  have hl := List.rdropWhile_last_not isIdle ss hne
  simpa [← trim_eq, h] using hl

/-! ## Components -/

/-- What the first segment stands for if others follow. -/
def front (first : List UInt8) : List Component :=
  if first = [] then [.root]
  else if first = [dot] then [.here]
  else (component? first).toList

theorem eq_of_mem_front (h : .name n ∈ front first) : n = first := by
  unfold front at h
  split_ifs at h
  · simp at h
  · simp at h
  · exact (eq_of_component? (by simpa using h)).symm

theorem components_of_empty (h : p.bytes = []) : p.components = [] := by
  simp [components, h, split]

theorem bytes_ne_nil (h : c ∈ p.components) : p.bytes ≠ [] := by
  intro hn
  rw [components_of_empty hn] at h
  cases h

theorem components_of_split (h : split p.bytes = first :: rest) (hp : p.bytes ≠ []) :
    p.components = front first ++ rest.filterMap component? := by
  -- an empty first segment is the root, since the path is not empty
  have hne : first = [] → rest ≠ [] := by
    rintro rfl rfl
    have hj := join_split p.bytes
    rw [h] at hj
    exact hp hj.symm
  unfold components front
  rw [h]
  by_cases hf : first = []
  · simp [hf, hne hf]
  · simp [hf]

theorem components_slash_append (bs name : List UInt8) (h : slash ∉ name) :
    components ⟨bs ++ slash :: name⟩ = components ⟨bs ++ [slash]⟩ ++ (component? name).toList := by
  obtain ⟨first, rest, hb⟩ := List.exists_cons_of_ne_nil (split_ne_nil bs)
  have hs (t : List UInt8) (ht : slash ∉ t) :
      split (bs ++ slash :: t) = first :: (rest ++ [t]) := by
    rw [split_append_slash, split_of_not_mem ht, hb, List.cons_append]
  rw [components_of_split (hs name h) (by simp), components_of_split (hs [] (by simp)) (by simp)]
  cases hc : component? name <;> simp [hc, component?_nil]

theorem components_append_slash (h : p.bytes ≠ []) :
    components ⟨p.bytes ++ [slash]⟩ = p.components := by
  obtain ⟨first, rest, hb⟩ := List.exists_cons_of_ne_nil (split_ne_nil p.bytes)
  have hs : split (p.bytes ++ [slash]) = first :: (rest ++ [[]]) := by
    rw [split_append_slash, hb]
    rfl
  rw [components_of_split hs (by simp), components_of_split hb h]
  simp [component?_nil]

theorem components_push (p : Path) {name : List UInt8} (h : IsName name) :
    (p.push name).components = p.components ++ [.name name] := by
  have hhead : name.head? ≠ some slash := fun e => h.no_slash (List.mem_of_head? e)
  have hname : (component? name).toList = [.name name] := by rw [h.component?]; rfl
  rw [push, if_neg hhead]
  by_cases hb : p.bytes = []
  · rw [if_pos (.inl hb), components_of_empty hb, hb, List.nil_append,
      components_of_split (split_of_not_mem h.no_slash) h.ne_nil, front, if_neg h.ne_nil,
      if_neg h.ne_dot, hname]
    rfl
  · by_cases hl : p.bytes.getLast? = some slash
    · -- the slash in front of the name is there already
      obtain ⟨bs, hbs⟩ := List.getLast?_eq_some_iff.mp hl
      have hp : components ⟨bs ++ [slash]⟩ = p.components := by rw [← hbs]
      rw [if_pos (.inr hl), hbs, List.append_assoc, ← hp, ← hname]
      exact components_slash_append bs name h.no_slash
    · rw [if_neg (not_or.mpr ⟨hb, hl⟩), components_slash_append _ _ h.no_slash,
        components_append_slash hb, hname]

/-! ## The last name -/

theorem fileName?_eq_some_iff :
    p.fileName? = some f ↔ p.components.getLast? = some (.name f) := by
  unfold fileName?
  split
  · next n hn => simp [hn]
  · next hn =>
    constructor
    · intro h
      cases h
    · intro h
      exact absurd h (hn f)

theorem eq_of_getLast?_front (h : (front first).getLast? = some c) : front first = [c] := by
  unfold front at h ⊢
  split_ifs at h ⊢
  · simpa using h
  · simpa using h
  · cases hc : component? first with
    | none => simp [hc] at h
    | some d => simpa [hc] using h

theorem parent_of_trim_nil (h : split p.bytes = first :: rest) (ht : trim rest = []) :
    p.parent = ⟨[]⟩ := by
  simp [parent, h, ht]

theorem parent_of_trim (h : split p.bytes = first :: rest) (ht : trim rest = init ++ [s]) :
    p.parent =
      if trim init = [] then if first = [] then ⟨[slash]⟩ else ⟨first⟩
      else ⟨join (first :: trim init)⟩ := by
  unfold parent
  rw [h]
  dsimp only
  split
  · next hn => simp [hn] at ht
  · rw [ht, List.dropLast_concat]
    cases trim init <;> simp

theorem components_parent_of_trim (h : split p.bytes = first :: rest)
    (ht : trim rest = init ++ [s]) :
    p.parent.components = front first ++ init.filterMap component? := by
  have hslash : ∀ t ∈ first :: trim init, slash ∉ t := by
    intro t hmem
    have hsplit : t ∈ split p.bytes := by
      rw [h]
      rcases List.mem_cons.mp hmem with rfl | hi
      · exact List.mem_cons_self
      · have hr : t ∈ trim rest := by
          rw [ht]
          exact List.mem_append_left _ (mem_of_mem_trim hi)
        exact List.mem_cons_of_mem first (mem_of_mem_trim hr)
    exact slash_not_mem_of_split hsplit
  rw [parent_of_trim h ht, ← filterMap_trim init]
  split_ifs with hi hf
  · -- the root alone is written as a slash, not as its empty segment
    rw [hf, hi]
    rfl
  · rw [hi]
    exact components_of_split (split_of_not_mem (hslash first List.mem_cons_self)) hf
  · apply components_of_split
    · exact split_join (List.cons_ne_nil first _) hslash
    · obtain ⟨t, ts, he⟩ := List.exists_cons_of_ne_nil hi
      simp [he, join]

theorem components_eq_parent (h : p.fileName? = some f) :
    p.components = p.parent.components ++ [.name f] := by
  rw [fileName?_eq_some_iff] at h
  have hp := bytes_ne_nil (List.mem_of_getLast? h)
  obtain ⟨first, rest, hb⟩ := List.exists_cons_of_ne_nil (split_ne_nil p.bytes)
  have hc := components_of_split hb hp
  rw [← filterMap_trim] at hc
  rcases List.eq_nil_or_concat (trim rest) with ht | ⟨init, s, ht⟩
  · -- only the first segment names something
    rw [ht, List.filterMap_nil, List.append_nil] at hc
    rw [hc] at h ⊢
    rw [parent_of_trim_nil hb ht, components_of_empty rfl]
    exact eq_of_getLast?_front h
  · -- the last segment that names something is the name, and the parent has all before it
    rw [List.concat_eq_append] at ht
    obtain ⟨c, hs⟩ := exists_component? (isIdle_of_trim ht)
    have hl : [s].filterMap component? = [c] := by simp [hs]
    rw [ht, List.filterMap_append, hl, ← List.append_assoc] at hc
    rw [hc, List.getLast?_concat] at h
    rw [hc, components_parent_of_trim hb ht, Option.some.inj h]

theorem slash_not_mem_of_name (h : .name n ∈ p.components) : slash ∉ n := by
  obtain ⟨first, rest, hb⟩ := List.exists_cons_of_ne_nil (split_ne_nil p.bytes)
  have hn : n ∈ split p.bytes := by
    rw [components_of_split hb (bytes_ne_nil h), List.mem_append] at h
    rw [hb]
    rcases h with hl | hr
    · rw [eq_of_mem_front hl]
      exact List.mem_cons_self
    · obtain ⟨s, hs, he⟩ := List.mem_filterMap.mp hr
      rw [← eq_of_component? he]
      exact List.mem_cons_of_mem first hs
  exact slash_not_mem_of_split hn

theorem fileName?_of_components {cs : List Component}
    (h : p.components = cs ++ [.name n]) : p.fileName? = some n := by
  rw [fileName?_eq_some_iff, h, List.getLast?_concat]

/-! ## Stems and extensions -/

/-- `s` is what stands before the last dot of `name`, or all of it if it has none. -/
def IsStem (s name : List Char) : Prop :=
  (∃ e, name = s ++ '.' :: e ∧ '.' ∉ e) ∨ ('.' ∉ name ∧ s = name)

/-- A dot with a text behind it that is not empty and has neither a dot nor a slash. -/
def IsExtension (ext : String) : Prop :=
  ∃ e, ext.toList = '.' :: e ∧ e ≠ [] ∧ '.' ∉ e ∧ '/' ∉ e

theorem isExtension_transcriptExtension : IsExtension transcriptExtension :=
  ⟨"out".toList, by decide, by decide, by decide, by decide⟩

theorem ne_dot_of_mem_reverse {cs : List Char} (h : '.' ∉ cs) :
    ∀ c ∈ cs.reverse, decide (c ≠ '.') = true := by
  intro c hc
  rw [decide_eq_true_iff]
  rintro rfl
  exact h (List.mem_reverse.mp hc)

theorem stem_of_not_mem {name : List Char} (h : '.' ∉ name) : stem name = name := by
  rw [stem, List.dropWhile_eq_nil_iff.mpr (ne_dot_of_mem_reverse h)]

theorem stem_append {s e : List Char} (h : '.' ∉ e) : stem (s ++ '.' :: e) = s := by
  have hd : (s ++ '.' :: e).reverse.dropWhile (· ≠ '.') = '.' :: s.reverse := by
    rw [List.reverse_append, List.reverse_cons, List.append_assoc,
      List.dropWhile_append_of_pos (ne_dot_of_mem_reverse h)]
    rfl
  rw [stem, hd]
  exact List.reverse_reverse s

theorem isStem_stem (name : List Char) : IsStem (stem name) name := by
  by_cases h : '.' ∈ name
  · obtain ⟨e, s, hr, he⟩ := List.eq_append_cons_of_mem (List.mem_reverse.mpr h)
    have hn : name = s.reverse ++ '.' :: e.reverse := by
      rw [← List.reverse_reverse name, hr]
      simp
    have hd : '.' ∉ e.reverse := fun hm => he (List.mem_reverse.mp hm)
    rw [hn, stem_append hd]
    exact .inl ⟨e.reverse, rfl, hd⟩
  · rw [stem_of_not_mem h]
    exact .inr ⟨h, rfl⟩

theorem IsStem.subset {s name : List Char} (h : IsStem s name) : s ⊆ name := by
  rcases h with ⟨e, rfl, -⟩ | ⟨-, rfl⟩
  · exact List.subset_append_left _ _
  · exact List.Subset.refl _

/-! ## The path of a transcript -/

theorem isName_of_mem {b : UInt8} (h : slash ∉ s) (hb : b ∈ s) (hd : b ≠ dot) :
    IsName s where
  no_slash := h
  ne_nil := by
    rintro rfl
    simp at hb
  ne_dot := by
    rintro rfl
    simp [hd] at hb
  ne_dots := by
    rintro rfl
    simp [hd] at hb

theorem IsExtension.isName (h : IsExtension ext) {s : List Char} (hs : '/' ∉ s) :
    IsName (Utf8.encode s ++ Utf8.bytes ext) := by
  obtain ⟨e, he, hne, hdot, hslash⟩ := h
  rw [Utf8.bytes, ← Utf8.encode_append, he]
  -- the first byte behind the dot tells the name from one and from two dots
  obtain ⟨c, e, rfl⟩ := List.exists_cons_of_ne_nil hne
  obtain ⟨b, bs, hb, -⟩ := Utf8.encoding_spec c
  have hmem : b ∈ String.utf8EncodeChar c := by simp [hb]
  have hnot : slash ∉ Utf8.encode (s ++ '.' :: c :: e) := by
    intro hm
    have hc : '/' ∈ s ++ '.' :: c :: e := Utf8.mem_of_mem_encode hm (by decide) (by decide)
    rcases List.mem_append.mp hc with hl | hr
    · exact hs hl
    · exact hslash (by simpa using hr)
  refine isName_of_mem hnot (b := b) (by simp [hmem]) ?_
  rintro rfl
  have hd : c = '.' := Char.toNat_inj.mp (Utf8.toNat_of_mem_encodeChar hmem (by decide))
  exact hdot (hd ▸ List.mem_cons_self)

theorem slash_not_mem_lossy (h : slash ∉ bs) : '/' ∉ Utf8.lossy bs := by
  intro hm
  rcases Utf8.mem_of_mem_lossy hm with hr | ⟨b, hb, he⟩
  · exact absurd hr (by decide)
  · have hs : (String.utf8EncodeChar '/').head? = some slash := by decide
    rw [hs] at he
    exact h (Option.some.inj he ▸ hb)

theorem components_transcript (he : IsExtension ext) (h : p.fileName? = some f) :
    (p.transcript ext).components = p.parent.components ++
      [.name (Utf8.encode (stem (Utf8.lossy f)) ++ Utf8.bytes ext)] := by
  have hm := List.mem_of_getLast? (fileName?_eq_some_iff.mp h)
  have hf : '/' ∉ Utf8.lossy f := slash_not_mem_lossy (slash_not_mem_of_name hm)
  have hs : '/' ∉ stem (Utf8.lossy f) := fun hc => hf ((isStem_stem _).subset hc)
  rw [← components_push _ (he.isName hs)]
  simp only [transcript, withFileName, h, Option.getD_some]

theorem transcript_of_unnamed (h : p.fileName? = none) (ext : String) :
    p.transcript ext = p.push (Utf8.bytes ext) := by
  simp [transcript, withFileName, h, Utf8.lossy, stem]

/-- A path that ends in the extension already is the path of its own transcript. -/
theorem components_transcript_self {s : List Char} (he : IsExtension ext)
    (h : p.fileName? = some (Utf8.encode s ++ Utf8.bytes ext)) :
    (p.transcript ext).components = p.components := by
  have hs : stem (Utf8.lossy (Utf8.encode s ++ Utf8.bytes ext)) = s := by
    obtain ⟨e, hext, -, hdot, -⟩ := he
    rw [Utf8.bytes, ← Utf8.encode_append, Utf8.lossy_encode, hext, stem_append hdot]
  rw [components_transcript he h, hs, ← components_eq_parent h]

/-- The name of a transcript. A path that ends in a name has its transcript in the same place, under
what stands before the last dot of the name with the extension behind it, where bytes of the name
that are no text are replaced; any other path has it one step further, under the extension alone.
The transcript of a transcript has the same path. -/
theorem transcript_naming (p : Path) {ext : String} (he : IsExtension ext) :
    (∀ f, p.fileName? = some f →
      ∃ s, IsStem s (Utf8.lossy f) ∧
        (p.transcript ext).fileName? = some (Utf8.encode s ++ Utf8.bytes ext) ∧
        (p.transcript ext).parent.components = p.parent.components ∧
        p.components = p.parent.components ++ [.name f] ∧
        (p.transcript ext).components =
          p.parent.components ++ [.name (Utf8.encode s ++ Utf8.bytes ext)]) ∧
    (p.fileName? = none →
      p.transcript ext = p.push (Utf8.bytes ext) ∧
        (p.transcript ext).components = p.components ++ [.name (Utf8.bytes ext)]) ∧
    ((p.transcript ext).transcript ext).components = (p.transcript ext).components := by
  cases h : p.fileName? with
  | some f =>
    have hc := components_transcript he h
    have hn := fileName?_of_components hc
    have hp := components_eq_parent hn
    rw [hc] at hp
    refine ⟨?_, nofun, components_transcript_self he hn⟩
    rintro _ ⟨⟩
    exact ⟨_, isStem_stem _, hn, (List.append_cancel_right hp).symm, components_eq_parent h, hc⟩
  | none =>
    have hname := he.isName (s := []) List.not_mem_nil
    have hc := components_push p hname
    rw [Utf8.encode_nil, List.nil_append, ← transcript_of_unnamed h] at hc
    have hn := fileName?_of_components hc
    refine ⟨nofun, fun _ => ⟨transcript_of_unnamed h ext, hc⟩, ?_⟩
    exact components_transcript_self (s := []) he hn

/-- A name that is no text, between slashes that say nothing; a path that leads up; and a name with
nothing before its dot. -/
theorem transcript_naming_no_text :
    (∃ p : Path, p.bytes = Utf8.bytes "v1.2//./" ++ [0xC3, 0x2E, 0x6D] ++ Utf8.bytes "/." ∧
      ∃ s, IsStem s "\uFFFD.m".toList ∧
        (p.transcript ".out").fileName? = some (Utf8.encode s ++ Utf8.bytes ".out") ∧
        (p.transcript ".out").parent.components = [.name (Utf8.bytes "v1.2")]) ∧
    (ofString "a/..").transcript ".out" = (ofString "a/..").push (Utf8.bytes ".out") ∧
    (((ofString "/.m").transcript ".out").transcript ".out").components =
      ((ofString "/.m").transcript ".out").components := by
  have he : IsExtension ".out" := isExtension_transcriptExtension
  refine ⟨⟨⟨_⟩, rfl, ?_⟩, ?_, ?_⟩
  · obtain ⟨s, hs, hn, hp, -⟩ := (transcript_naming
      ⟨Utf8.bytes "v1.2//./" ++ [0xC3, 0x2E, 0x6D] ++ Utf8.bytes "/."⟩ he).1
      [0xC3, 0x2E, 0x6D] (by decide +kernel)
    have hl : Utf8.lossy [0xC3, 0x2E, 0x6D] = "\uFFFD.m".toList := by decide +kernel
    rw [hl] at hs
    exact ⟨s, hs, hn, hp.trans (by decide +kernel)⟩
  · exact ((transcript_naming (ofString "a/..") he).2.1 (by decide +kernel)).1
  · exact (transcript_naming (ofString "/.m") he).2.2

end Modula.Path
