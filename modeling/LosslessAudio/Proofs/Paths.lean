import LosslessAudio.File.Path
import Mathlib.Data.List.DropRight

/-!
# Paths and their file names

A path is its front and its components (`Path.front_append_join`), and a front with components that
fit it (`Path.Fits`) is a path with just this front and these components (`Path.front_of_fits`,
`Path.components_of_fits`).  What a path with another file name looks like is therefore a matter of
components only.

* `Path.exists_withSuffix` — the components of a path that was given a suffix.
* `Path.withSuffix_projects` — giving a suffix a second time changes nothing, and what a path has
  after the first time.
-/

set_option autoImplicit false

namespace LosslessAudio.Path

/-! ## Cutting and joining -/

theorem slash_notMem_of_mem_split {bytes component : Bytes} (h : component ∈ split bytes) :
    slash ∉ component := by
  induction bytes generalizing component with
  | nil =>
    obtain rfl := List.mem_singleton.1 h
    exact List.not_mem_nil
  | cons b rest ih =>
    rw [split] at h
    cases hsplit : split rest with
    | nil => exact absurd hsplit (split_ne_nil rest)
    | cons first others =>
      rw [hsplit] at h ih
      dsimp only at h
      split at h
      · rcases List.mem_cons.1 h with rfl | h
        · exact List.not_mem_nil
        · exact ih h
      · rename_i hb
        rcases List.mem_cons.1 h with rfl | h
        · exact fun hmem => (List.mem_cons.1 hmem).elim (fun heq => hb heq.symm)
            (ih List.mem_cons_self)
        · exact ih (List.mem_cons_of_mem _ h)

/-- A component in front of others is cut off at the slash. -/
theorem split_append_slash {component : Bytes} (h : slash ∉ component) (bytes : Bytes) :
    split (component ++ slash :: bytes) = component :: split bytes := by
  induction component with
  | nil =>
    rw [List.nil_append, split]
    cases hsplit : split bytes with
    | nil => exact absurd hsplit (split_ne_nil bytes)
    | cons first others => simp
  | cons b component ih =>
    have hb : b ≠ slash := fun heq => h (heq ▸ List.mem_cons_self)
    rw [List.cons_append, split, ih fun hmem => h (List.mem_cons_of_mem b hmem)]
    exact if_neg hb

theorem split_of_notMem {component : Bytes} (h : slash ∉ component) :
    split component = [component] := by
  induction component with
  | nil => rfl
  | cons b component ih =>
    have hb : b ≠ slash := fun heq => h (heq ▸ List.mem_cons_self)
    rw [split, ih fun hmem => h (List.mem_cons_of_mem b hmem)]
    exact if_neg hb

theorem split_join {components : List Bytes} (hne : components ≠ [])
    (h : ∀ component ∈ components, slash ∉ component) : split (join components) = components := by
  induction components with
  | nil => exact absurd rfl hne
  | cons first others ih =>
    have hfirst := h first List.mem_cons_self
    cases others with
    | nil => exact split_of_notMem hfirst
    | cons second others =>
      rw [join, split_append_slash hfirst,
        ih (List.cons_ne_nil _ _) fun component hmem => h component (List.mem_cons_of_mem _ hmem)]
      exact List.cons_ne_nil _ _

/-- What follows the first component starts with a slash. -/
theorem exists_join_cons (first : Bytes) (others : List Bytes) :
    ∃ more, join (first :: others) = first ++ more ∧ (more = [] ∨ more.head? = some slash) := by
  cases others with
  | nil => exact ⟨[], (List.append_nil first).symm, .inl rfl⟩
  | cons second others => exact ⟨slash :: join (second :: others), rfl, .inr rfl⟩

/-- Bytes behind the last component belong to it. -/
theorem join_append_singleton (init : List Bytes) (last more : Bytes) :
    join (init ++ [last ++ more]) = join (init ++ [last]) ++ more := by
  induction init with
  | nil => rfl
  | cons first init ih =>
    cases init with
    | nil => simp [join]
    | cons second init => simp_all [join]

/-- One more component comes behind one more slash. -/
theorem join_append_of_ne_nil {init : List Bytes} (hne : init ≠ []) (last : Bytes) :
    join (init ++ [last]) = join init ++ slash :: last := by
  induction init with
  | nil => exact absurd rfl hne
  | cons first init ih =>
    cases init with
    | nil => rfl
    | cons second init => simp_all [join]

/-! ## Fronts and components -/

/-- Which components a front can have behind it, so that it ends where it does. -/
inductive Fits : Bytes → List Bytes → Prop
  | root (first : Bytes) (others : List Bytes) : Fits [slash] (first :: others)
  | current (others : List Bytes) : Fits [dot] ([] :: others)
  | relative {first : Bytes} (hfirst : isVoid first = false) (others : List Bytes) :
      Fits [] (first :: others)

theorem isVoid_eq_false_iff {component : Bytes} :
    isVoid component = false ↔ component ≠ [] ∧ component ≠ [dot] := by
  simp [isVoid]

theorem Fits.ne_nil {front : Bytes} {components : List Bytes} (h : Fits front components) :
    components ≠ [] := by
  cases h <;> exact List.cons_ne_nil _ _

/-- Whether a front fits is decided by the first component that is not void, if not before. -/
theorem Fits.replace {front name : Bytes} {init rest : List Bytes}
    (h : Fits front (init ++ name :: rest)) (hname : isVoid name = false) {name' : Bytes}
    (hname' : isVoid name' = false) (rest' : List Bytes) : Fits front (init ++ name' :: rest') := by
  cases init with
  | nil =>
    cases h with
    | root => exact .root _ _
    | current => cases hname
    | relative => exact .relative hname' _
  | cons first init =>
    cases h with
    | root => exact .root _ _
    | current => exact .current _
    | relative hfirst => exact .relative hfirst _

variable (p : Path)

/-- **A path is its front and its components.** -/
theorem front_append_join : p.front ++ join p.components = p.bytes := by
  have hprefix : p.front ++ p.bytes.drop p.front.length = p.bytes := by
    rw [front]
    rcases p.bytes with _ | ⟨first, _ | ⟨second, rest⟩⟩
    · rfl
    all_goals
      dsimp only
      split <;> rfl
  rw [components, join_split, hprefix]

variable {p}

/-- The first byte is the front if it is a slash, or a dot that stands alone. -/
theorem front_of_cons {b : UInt8} {rest : Bytes} (hbytes : p.bytes = b :: rest) :
    p.front =
      if b = slash ∨ (b = dot ∧ (rest = [] ∨ rest.head? = some slash)) then [b] else [] := by
  rw [front, hbytes]
  cases rest <;> simp

/-- The front of a path that is not empty fits its components. -/
theorem fits_components (hne : p.bytes ≠ []) : Fits p.front p.components := by
  obtain ⟨b, rest, hbytes⟩ := List.exists_cons_of_ne_nil hne
  obtain ⟨first, others, hfirst⟩ := List.exists_cons_of_ne_nil (split_ne_nil rest)
  rw [components, front_of_cons hbytes, hbytes]
  split
  · rename_i hfront
    rw [List.length_singleton, List.drop_one, List.tail_cons]
    rcases hfront with rfl | ⟨rfl, rfl | hhead⟩
    · rw [hfirst]
      exact .root _ _
    · exact .current _
    · obtain ⟨more, rfl⟩ := List.head?_eq_some_iff.1 hhead
      rw [← List.nil_append (slash :: more), split_append_slash List.not_mem_nil]
      exact .current _
  · rename_i hfront
    obtain ⟨first, others, hfirst⟩ := List.exists_cons_of_ne_nil (split_ne_nil (b :: rest))
    obtain ⟨more, hmore, hhead⟩ := exists_join_cons first others
    rw [← hfirst, join_split] at hmore
    rw [List.length_nil, List.drop_zero, hfirst]
    refine .relative (isVoid_eq_false_iff.2 ⟨?_, ?_⟩) _
    · rintro rfl
      obtain rfl : b :: rest = more := hmore
      exact hfront (.inl (by simpa using hhead))
    · rintro rfl
      obtain ⟨rfl, rfl⟩ := List.cons.inj hmore
      exact hfront (.inr ⟨rfl, hhead⟩)

variable {front : Bytes} {components : List Bytes}

theorem front_of_fits (h : Fits front components)
    (hslash : ∀ component ∈ components, slash ∉ component) :
    (⟨front ++ join components⟩ : Path).front = front := by
  cases h with
  | root first others =>
    have hbytes : (⟨[slash] ++ join (first :: others)⟩ : Path).bytes =
        slash :: join (first :: others) := rfl
    rw [front_of_cons hbytes, if_pos (.inl rfl)]
  | current others =>
    obtain ⟨more, hmore, hhead⟩ := exists_join_cons [] others
    have hbytes : (⟨[dot] ++ join ([] :: others)⟩ : Path).bytes = dot :: more :=
      congrArg (dot :: ·) hmore
    rw [front_of_cons hbytes, if_pos (.inr ⟨rfl, hhead⟩)]
  | @relative first hfirst others =>
    obtain ⟨more, hmore, hhead⟩ := exists_join_cons first others
    obtain ⟨hne, hdot⟩ := isVoid_eq_false_iff.1 hfirst
    obtain ⟨b, rest, rfl⟩ := List.exists_cons_of_ne_nil hne
    have hnone := hslash _ List.mem_cons_self
    have hbytes : (⟨[] ++ join ((b :: rest) :: others)⟩ : Path).bytes = b :: (rest ++ more) := hmore
    rw [front_of_cons hbytes, if_neg]
    rintro (rfl | ⟨rfl, hrest⟩)
    · exact hnone List.mem_cons_self
    · cases rest with
      | nil => exact hdot rfl
      | cons c rest =>
        obtain rfl : c = slash := by simpa using hrest
        exact hnone (List.mem_cons_of_mem _ List.mem_cons_self)

theorem components_of_fits (h : Fits front components)
    (hslash : ∀ component ∈ components, slash ∉ component) :
    (⟨front ++ join components⟩ : Path).components = components := by
  rw [Path.components, front_of_fits h hslash]
  dsimp only
  rw [List.drop_left, split_join h.ne_nil hslash]

/-! ## File names -/

theorem trimEnd_append_singleton (init : List Bytes) {name : Bytes} (h : isVoid name = false) :
    trimEnd (init ++ [name]) = init ++ [name] :=
  List.rdropWhile_concat_neg isVoid init name (by simp [h])

theorem trimEnd_trimEnd (components : List Bytes) :
    trimEnd (trimEnd components) = trimEnd components :=
  List.rdropWhile_idempotent isVoid components

/-- What is left at the end says something, and was followed by what says nothing. -/
theorem exists_of_trimEnd {components init : List Bytes} {name : Bytes}
    (h : trimEnd components = init ++ [name]) :
    isVoid name = false ∧ ∃ rest, components = init ++ name :: rest := by
  obtain ⟨rest, hrest⟩ : trimEnd components <+: components :=
    List.rdropWhile_prefix isVoid components
  rw [h, List.append_assoc, List.singleton_append] at hrest
  have hne : components.rdropWhile isVoid ≠ [] := by
    change trimEnd components ≠ []
    simp [h]
  have hlast := List.rdropWhile_last_not isVoid components hne
  have hname : (components.rdropWhile isVoid).getLast hne = name := by
    change (trimEnd components).getLast hne = name
    simp [h]
  rw [hname, Bool.not_eq_true] at hlast
  exact ⟨hlast, rest, hrest.symm⟩

theorem slash_notMem_of_mem_components {component : Bytes} (h : component ∈ p.components) :
    slash ∉ component :=
  slash_notMem_of_mem_split h

/-- A path with a file name consists of what leads to the name, the name, and components that say
nothing. -/
theorem exists_of_fileName? {name : Bytes} (h : p.fileName? = some name) :
    ∃ init, trimEnd p.components = init ++ [name] ∧ name ≠ parentName := by
  rw [fileName?] at h
  split at h
  · cases h
  · rename_i last hlast
    split at h
    · cases h
    · rename_i hparent
      obtain rfl := Option.some.inj h
      obtain ⟨init, hinit⟩ := List.getLast?_eq_some_iff.1 hlast
      exact ⟨init, hinit, hparent⟩

/-- A path that is put together has the name that was put at its end, and the parent that leads to
it. -/
theorem fileName?_of_fits {init : List Bytes} {name : Bytes} (hfits : Fits front (init ++ [name]))
    (hslash : ∀ component ∈ init ++ [name], slash ∉ component) (hname : isVoid name = false)
    (hparent : name ≠ parentName) :
    (⟨front ++ join (init ++ [name])⟩ : Path).fileName? = some name ∧
      (⟨front ++ join (init ++ [name])⟩ : Path).parent = ⟨front ++ join (trimEnd init)⟩ := by
  constructor
  · rw [fileName?, components_of_fits hfits hslash, trimEnd_append_singleton init hname]
    simp [hparent]
  · rw [parent, components_of_fits hfits hslash, trimEnd_append_singleton init hname,
      List.dropLast_concat, withComponents, front_of_fits hfits hslash]

/-! ## Extensions -/

variable {name extension : Bytes}

theorem isVoid_addExtension (hname : name ≠ []) (extension : Bytes) :
    isVoid (addExtension name extension) = false := by
  refine isVoid_eq_false_iff.2 ⟨by simp [addExtension], fun h => ?_⟩
  have hlength := congrArg List.length h
  have hpos := List.length_pos_iff.2 hname
  simp only [addExtension, List.length_append, List.length_cons, List.length_nil] at hlength
  omega

theorem addExtension_ne_parentName (hname : name ≠ []) (hne : extension ≠ []) :
    addExtension name extension ≠ parentName := by
  intro h
  have hlength := congrArg List.length h
  have hpos := List.length_pos_iff.2 hname
  have hpos' := List.length_pos_iff.2 hne
  simp only [addExtension, parentName, List.length_append, List.length_cons,
    List.length_nil] at hlength
  omega

/-- The extension that is added to a name is the one that the name has then. -/
theorem extensionOf?_addExtension (hname : name ≠ []) (hdot : dot ∉ extension) :
    extensionOf? (addExtension name extension) = some extension := by
  have hbehind : (addExtension name extension).reverse.takeWhile (· ≠ dot) = extension.reverse := by
    rw [addExtension, List.reverse_append, List.reverse_cons, List.append_assoc,
      List.takeWhile_append_of_pos]
    · simp
    · intro b hb
      simpa using fun heq : b = dot => hdot (heq ▸ List.mem_reverse.1 hb)
  have hsplit : splitAtLastDot (addExtension name extension) = some (name, extension) := by
    rw [splitAtLastDot, if_pos (by simp [addExtension])]
    dsimp only
    have hlength : (addExtension name extension).length - extension.length - 1 = name.length := by
      rw [addExtension, List.length_append, List.length_cons]
      omega
    rw [hbehind, List.reverse_reverse, List.length_reverse, hlength, addExtension, List.take_left]
  rw [extensionOf?, hsplit]
  exact if_neg hname

/-! ## Suffixes -/

theorem exists_join_append_singleton (init : List Bytes) (last : Bytes) :
    ∃ before, join (init ++ [last]) = before ++ last :=
  ⟨join (init ++ [[]]), join_append_singleton init [] last⟩

/-- A file in the directory that some components lead to. -/
theorem exists_child {init rest : List Bytes}
    (hfits : Fits front (init ++ name :: rest)) (hslash : ∀ component ∈ init, slash ∉ component)
    {name' : Bytes} (hname' : isVoid name' = false) :
    ∃ init', (⟨front ++ join (trimEnd init)⟩ : Path).child name' =
        ⟨front ++ join (init' ++ [name'])⟩ ∧ Fits front (init' ++ [name']) ∧
      (∀ component ∈ init', component ∈ init ∨ component = []) ∧
      trimEnd init' = trimEnd init := by
  rcases List.eq_nil_or_concat (trimEnd init) with htrim | ⟨before, last, htrim⟩
  · -- nothing leads to the directory but the front
    rw [htrim]
    cases hfits' : init ++ name :: rest with
    | nil => simp at hfits'
    | cons first others =>
      rw [hfits'] at hfits
      cases hfits with
      | root => exact ⟨[], rfl, .root _ _, nofun, rfl⟩
      | current => exact ⟨[[]], rfl, .current _, by simp, rfl⟩
      | relative => exact ⟨[], rfl, .relative hname' _, nofun, rfl⟩
  · rw [List.concat_eq_append] at htrim
    obtain ⟨hlast, more, hinit⟩ := exists_of_trimEnd htrim
    have hmem (component : Bytes) (hcomponent : component ∈ trimEnd init) : component ∈ init :=
      (List.rdropWhile_prefix isVoid init).subset hcomponent
    refine ⟨trimEnd init, ?_, ?_, fun component h => .inl (hmem component h),
      trimEnd_trimEnd init⟩
    · obtain ⟨bytes, hbytes⟩ := exists_join_append_singleton before last
      obtain ⟨b, hb⟩ : ∃ b, last.getLast? = some b :=
        ⟨_, List.getLast?_eq_some_getLast (isVoid_eq_false_iff.1 hlast).1⟩
      have hend : (front ++ join (trimEnd init)).getLast? = some b := by
        rw [htrim, hbytes, ← List.append_assoc, List.getLast?_append, hb, Option.some_or]
      have hne : b ≠ slash := by
        rintro rfl
        exact hslash last (hmem last (by simp [htrim])) (List.mem_of_getLast? hb)
      rw [child, hend]
      dsimp only
      rw [if_neg hne, join_append_of_ne_nil (by simp [htrim]), List.append_assoc]
    · rw [hinit, List.append_assoc, List.cons_append] at hfits
      rw [htrim, List.append_assoc]
      exact hfits.replace hlast hlast [name']

/-- **A path that was given a suffix** is the path with another file name. -/
theorem exists_withSuffix (h : p.fileName? = some name) (hdiff : p.extension? ≠ some extension)
    (hne : extension ≠ []) :
    ∃ init, p.withSuffix extension = ⟨p.front ++ join (init ++ [addExtension name extension])⟩ ∧
      Fits p.front (init ++ [addExtension name extension]) ∧
      (∀ component ∈ init, component ∈ p.components ∨ component = []) ∧
      p.parent = ⟨p.front ++ join (trimEnd init)⟩ := by
  obtain ⟨init, htrim, -⟩ := exists_of_fileName? h
  obtain ⟨hname, rest, hcomponents⟩ := exists_of_trimEnd htrim
  have hname' := isVoid_addExtension (isVoid_eq_false_iff.1 hname).1 extension
  have hfits : Fits p.front (init ++ name :: rest) := by
    rw [← hcomponents]
    refine p.fits_components fun hempty => ?_
    simp [fileName?, components, front, hempty, split, trimEnd, isVoid] at h
  have hmem (component : Bytes) (h : component ∈ init) : component ∈ p.components :=
    hcomponents ▸ List.mem_append_left _ h
  have hslash (component : Bytes) (h : component ∈ init) : slash ∉ component :=
    slash_notMem_of_mem_components (hmem component h)
  have hparent : p.parent = ⟨p.front ++ join (trimEnd init)⟩ := by
    rw [parent, htrim, List.dropLast_concat, withComponents]
  rw [withSuffix, h]
  dsimp only
  cases hfound : extensionOf? name with
  | none =>
    refine ⟨init, ?_, hfits.replace hname hname' [], fun component h => .inl (hmem component h),
      hparent⟩
    rw [if_neg hne, htrim, withComponents, addExtension, addExtension, join_append_singleton,
      List.append_assoc]
  | some found =>
    have hother : found ≠ extension := by
      rintro rfl
      exact hdiff (by rw [extension?, h, Option.bind_some, hfound])
    obtain ⟨init', hchild, hfits', hmem', htrim'⟩ := exists_child hfits hslash hname'
    refine ⟨init', (if_neg hother).trans ?_, hfits',
      fun component h => (hmem' component h).imp_left (hmem component), by rw [hparent, htrim']⟩
    rw [hparent, hchild]

/-- What a path has that was given a suffix which it did not have before. -/
theorem fileName?_withSuffix (h : p.fileName? = some name) (hdiff : p.extension? ≠ some extension)
    (hne : extension ≠ []) (hslash : slash ∉ extension) :
    (p.withSuffix extension).fileName? = some (addExtension name extension) ∧
      (p.withSuffix extension).parent = p.parent := by
  obtain ⟨init, hwith, hfits, hinit, hparent⟩ := exists_withSuffix h hdiff hne
  obtain ⟨before, htrim, -⟩ := exists_of_fileName? h
  obtain ⟨hname, rest, hcomponents⟩ := exists_of_trimEnd htrim
  have hnil := (isVoid_eq_false_iff.1 hname).1
  have hclean : slash ∉ name :=
    slash_notMem_of_mem_components (p := p) (hcomponents ▸ List.mem_append_right _ (.head _))
  have hall : ∀ component ∈ init ++ [addExtension name extension], slash ∉ component := by
    intro component hmem
    rcases List.mem_append.1 hmem with hmem | hmem
    · rcases hinit component hmem with hmem | rfl
      · exact slash_notMem_of_mem_components hmem
      · exact nofun
    · obtain rfl := List.mem_singleton.1 hmem
      simpa [addExtension, hclean, hslash] using (by decide : slash ≠ dot)
  rw [hwith, hparent]
  exact fileName?_of_fits hfits hall (isVoid_addExtension hnil extension)
    (addExtension_ne_parentName hnil hne)

/-- A path without a file name is given no suffix. -/
theorem withSuffix_of_fileName?_eq_none (h : p.fileName? = none) (extension : Bytes) :
    p.withSuffix extension = p := by
  rw [withSuffix, h]

theorem ne_nil_of_fileName? (h : p.fileName? = some name) : name ≠ [] := by
  obtain ⟨init, htrim, -⟩ := exists_of_fileName? h
  exact (isVoid_eq_false_iff.1 (exists_of_trimEnd htrim).1).1

/-- The path with a suffix that its file name has already is the path itself. -/
theorem withSuffix_of_extension? (h : p.extension? = some extension) :
    p.withSuffix extension = p := by
  obtain ⟨name, hname, hextension⟩ := Option.bind_eq_some_iff.1 h
  rw [withSuffix, hname]
  dsimp only
  rw [hextension]
  exact if_pos rfl

theorem extension?_withSuffix (h : p.fileName? = some name) (hne : extension ≠ [])
    (hdot : dot ∉ extension) (hslash : slash ∉ extension) :
    (p.withSuffix extension).extension? = some extension := by
  by_cases hhas : p.extension? = some extension
  · rw [withSuffix_of_extension? hhas, hhas]
  · rw [extension?, (fileName?_withSuffix h hhas hne hslash).1, Option.bind_some]
    exact extensionOf?_addExtension (ne_nil_of_fileName? h) hdot

/-- **Giving a path a suffix is a projection.**  A second time it changes nothing.  A path with a
file name has the suffix as its extension then, it is in the same directory as before, and its file
name is the old one if that had the extension already, and else the old one with a dot and the
suffix behind it.  So two paths whose file names differ, and do not have the extension, do not get
the same file name. -/
theorem withSuffix_projects (p : Path) {extension : Bytes} (hne : extension ≠ [])
    (hdot : dot ∉ extension) (hslash : slash ∉ extension) :
    (p.withSuffix extension).withSuffix extension = p.withSuffix extension ∧
      ∀ name, p.fileName? = some name →
        (p.withSuffix extension).extension? = some extension ∧
        (p.withSuffix extension).parent = p.parent ∧
        (p.withSuffix extension).fileName? =
          (if p.extension? = some extension then some name
            else some (name ++ dot :: extension)) ∧
        ∀ (p' : Path) (name' : Bytes), p'.fileName? = some name' → name ≠ name' →
          p.extension? ≠ some extension → p'.extension? ≠ some extension →
          (p.withSuffix extension).fileName? ≠ (p'.withSuffix extension).fileName? := by
  refine ⟨?_, fun name h => ⟨extension?_withSuffix h hne hdot hslash, ?_, ?_, ?_⟩⟩
  · cases h : p.fileName? with
    | none => rw [withSuffix_of_fileName?_eq_none h, withSuffix_of_fileName?_eq_none h]
    | some name => exact withSuffix_of_extension? (extension?_withSuffix h hne hdot hslash)
  · by_cases hhas : p.extension? = some extension
    · rw [withSuffix_of_extension? hhas]
    · exact (fileName?_withSuffix h hhas hne hslash).2
  · split
    · rename_i hhas
      rw [withSuffix_of_extension? hhas, h]
    · rename_i hhas
      exact (fileName?_withSuffix h hhas hne hslash).1
  · intro p' name' h' hdiff hhas hhas' heq
    rw [(fileName?_withSuffix h hhas hne hslash).1, (fileName?_withSuffix h' hhas' hne hslash).1]
      at heq
    exact hdiff (List.append_cancel_right (Option.some.inj heq))

theorem withSuffix_projects_endsWithDot :
    let wav := "wav".toUTF8.toList
    let p := Path.ofString "./a//x.shn/."
    let p' := Path.ofString "./a/x."
    wav ≠ [] ∧ dot ∉ wav ∧ slash ∉ wav ∧ p.withSuffix wav = Path.ofString "./a/x.shn.wav" ∧
      (p.withSuffix wav).withSuffix wav = p.withSuffix wav ∧
      (p.withSuffix wav).extension? = some wav ∧ (p.withSuffix wav).parent = p.parent ∧
      (p.withSuffix wav).fileName? ≠ (p'.withSuffix wav).fileName? := by
  intro wav p p'
  have hne : wav ≠ [] := by decide +kernel
  have hdot : dot ∉ wav := by decide +kernel
  have hslash : slash ∉ wav := by decide +kernel
  have hname : p.fileName? = some "x.shn".toUTF8.toList := by decide +kernel
  have hname' : p'.fileName? = some "x.".toUTF8.toList := by decide +kernel
  obtain ⟨htwice, hnamed⟩ := withSuffix_projects p hne hdot hslash
  obtain ⟨hextension, hparent, -, hdiffer⟩ := hnamed _ hname
  exact ⟨hne, hdot, hslash, by decide +kernel, htwice, hextension, hparent,
    hdiffer p' _ hname' (by decide +kernel) (by decide +kernel) (by decide +kernel)⟩

end LosslessAudio.Path
