import Ecoa.Proofs.Component.Kinds
import Ecoa.Proofs.Component.Values
import Ecoa.Proofs.Linking.Steps

/-!
# Files of persistent information

A value of persistent information names a file below the directory `Pinfo` of its component or of
the integration. `Builds.exists_pinfo_value` tells which value a path comes from and where the path
leads: a value that begins with a slash stands alone, and one with double dots may lead out of the
directory.
-/

namespace Ecoa

/-- The pieces on both sides of a separator. -/
theorem Text.splitAll_append_cons {sep : Char} (a b : List Char) :
    splitAll sep (a ++ sep :: b) = splitAll sep a ++ splitAll sep b := by
  induction a with
  | nil => simp [splitAll]
  | cons c a ih =>
    by_cases hc : c = sep
    · simp [splitAll, hc, ih]
    · obtain ⟨w, ws, hw⟩ := List.exists_cons_of_ne_nil (splitAll_ne_nil sep a)
      simp [splitAll, hc, ih, hw]

namespace Path

def IsAbsolute (path : String) : Prop := path.toList.head? = some '/'

instance (path : String) : Decidable (IsAbsolute path) := inferInstanceAs (Decidable (_ = _))

/-- A path below another, with a slash between them unless one is there. -/
def below (base path : String) : String :=
  if base = "" ∨ base.toList.getLast? = some '/' then base ++ path else base ++ "/" ++ path

/-- What the path names one after the other; empty pieces and single dots name nothing. -/
def steps (path : String) : List String :=
  (Text.fieldsOf '/' path).filter fun s => s ≠ "" ∧ s ≠ "."

/-- The steps lead above where they start, or as many more above as they start below. -/
def leadsAbove : Nat → List String → Bool
  | _, [] => false
  | n, s :: rest =>
    if s ≠ ".." then leadsAbove (n + 1) rest
    else match n with
      | 0 => true
      | n + 1 => leadsAbove n rest

/-- The steps of the path go on from those of the directory, and never lead out of it. -/
def StaysUnder (directory path : String) : Prop :=
  (IsAbsolute path ↔ IsAbsolute directory) ∧
    ∃ rest, steps path = steps directory ++ rest ∧ leadsAbove 0 rest = false

variable {base path front : String}

theorem join_of_isAbsolute (h : IsAbsolute path) : join base path = path := if_pos h

theorem join_of_not_isAbsolute (h : ¬ IsAbsolute path) : join base path = below base path :=
  if_neg h

/-- The two paths with what stands between them. -/
theorem exists_below_eq (base path : String) :
    ∃ between, (between = "" ∨ between = "/") ∧ below base path = base ++ between ++ path := by
  unfold below
  split
  · exact ⟨"", .inl rfl, by rw [String.append_empty]⟩
  · exact ⟨"/", .inr rfl, rfl⟩

theorem below_ne_empty (h : path ≠ "") : below base path ≠ "" := by
  obtain ⟨between, -, heq⟩ := exists_below_eq base path
  rw [heq, ne_eq, String.append_eq_empty_iff]
  exact fun hempty => h hempty.2

theorem below_empty : below "" path = path := by
  rw [below, if_pos (.inl rfl), String.empty_append]

/-- A path is longer when something stands in front of it. -/
theorem append_ne (h : front ≠ "") : front ++ path ≠ path := by
  intro hsame
  have hlength := congrArg (fun s => s.toList.length) hsame
  have hfront : front.toList.length ≠ 0 := fun h0 =>
    h (String.toList_inj.mp (List.length_eq_zero_iff.mp h0))
  simp only [String.toList_append, List.length_append] at hlength
  omega

theorem below_ne (h : base ≠ "") : below base path ≠ path := by
  obtain ⟨between, -, heq⟩ := exists_below_eq base path
  rw [heq]
  exact append_ne fun hempty => h (String.append_eq_empty_iff.mp hempty).1

/-- What stands in front of a path stays in front of what is below it. -/
theorem below_append (h : base ≠ "") : below (front ++ base) path = front ++ below base path := by
  have hlast : (front ++ base).toList.getLast? = base.toList.getLast? := by
    have hne : base.toList ≠ [] := fun hnil => h (String.toList_inj.mp hnil)
    rw [String.toList_append, List.getLast?_append_of_ne_nil _ hne]
  have hfront : front ++ base ≠ "" := fun hempty => h (String.append_eq_empty_iff.mp hempty).2
  unfold below
  rw [hlast]
  simp only [h, hfront, false_or]
  split
  · rw [String.append_assoc]
  · rw [String.append_assoc, String.append_assoc, String.append_assoc]

theorem isAbsolute_below (h : base ≠ "") : IsAbsolute (below base path) ↔ IsAbsolute base := by
  obtain ⟨between, -, heq⟩ := exists_below_eq base path
  have hne : base.toList ≠ [] := fun hnil => h (String.toList_inj.mp hnil)
  rw [heq, IsAbsolute, IsAbsolute, String.toList_append, String.toList_append, List.append_assoc,
    List.head?_append_of_ne_nil _ hne]

theorem steps_append_slash : steps (base ++ "/" ++ path) = steps base ++ steps path := by
  unfold steps Text.fieldsOf
  simp only [String.toList_append]
  have hslash : base.toList ++ "/".toList ++ path.toList = base.toList ++ '/' :: path.toList := by
    simp
  rw [hslash, Text.splitAll_append_cons, List.map_append, List.filter_append]

/-- A path below another takes the steps of both. -/
theorem steps_below : steps (below base path) = steps base ++ steps path := by
  unfold below
  split
  · next h =>
    obtain rfl | hlast := h
    · rw [String.empty_append]
      rfl
    · obtain ⟨pre, hpre⟩ := List.getLast?_eq_some_iff.mp hlast
      obtain rfl : base = .ofList pre ++ "/" := String.toList_inj.mp (by simp [hpre])
      have hend : steps (.ofList pre ++ "/") = steps (.ofList pre) := by
        have hnone : steps (.ofList pre ++ "/" ++ "") = steps (.ofList pre) ++ [] :=
          steps_append_slash
        rwa [String.append_empty, List.append_nil] at hnone
      rw [steps_append_slash, hend]
  · exact steps_append_slash

theorem staysUnder_below_iff (h : base ≠ "") :
    StaysUnder base (below base path) ↔ leadsAbove 0 (steps path) = false := by
  unfold StaysUnder
  rw [steps_below, isAbsolute_below h, and_iff_right Iff.rfl]
  constructor
  · rintro ⟨rest, hrest, hstays⟩
    rwa [List.append_cancel_left hrest]
  · exact fun hstays => ⟨steps path, rfl, hstays⟩

end Path

open Ecoa.Path

namespace Layout

/-- The directory of the files of persistent information that belong to a directory of the
project. -/
def pinfoHome (l : Layout) (dir : String) : String := below (below l.projectDir dir) "Pinfo"

/-- Where a file of persistent information is that belongs to a directory of the project. It is
below the directory for such files, and under it unless it leads out of it, but a file or a
directory that begins with a slash is not taken to be in the project. -/
structure Places (l : Layout) (dir file path : String) : Prop where
  below_iff : path = below (l.pinfoHome dir) file ↔
    ¬ IsAbsolute file ∧ (IsAbsolute dir → l.projectDir = "")
  stays_iff : path = below (l.pinfoHome dir) file →
    (StaysUnder (l.pinfoHome dir) path ↔ leadsAbove 0 (steps file) = false)
  of_isAbsolute : IsAbsolute file → path = file
  of_isAbsolute_dir : ¬ IsAbsolute file → IsAbsolute dir → path = below (below dir "Pinfo") file

variable {l : Layout} {dir file : String}

theorem pinfoHome_ne_empty : l.pinfoHome dir ≠ "" := below_ne_empty (by decide)

/-- An absolute directory is not below the project. -/
theorem below_pinfoHome_ne (hdir : IsAbsolute dir) (hproject : l.projectDir ≠ "") :
    below (below dir "Pinfo") file ≠ below (l.pinfoHome dir) file := by
  have hne : dir ≠ "" := by
    rintro rfl
    exact absurd hdir (by decide)
  obtain ⟨between, -, heq⟩ := exists_below_eq l.projectDir dir
  have hfront : l.projectDir ++ between ≠ "" :=
    fun hempty => hproject (String.append_eq_empty_iff.mp hempty).1
  rw [pinfoHome, heq, below_append hne, below_append (below_ne_empty (by decide))]
  exact (append_ne hfront).symm

theorem places_join : l.Places dir file (join (join (join l.projectDir dir) "Pinfo") file) := by
  have hpinfo : ∀ base, join base "Pinfo" = below base "Pinfo" :=
    fun _ => join_of_not_isAbsolute (by decide)
  rw [hpinfo]
  refine ⟨?_, fun hpath => ?_, join_of_isAbsolute, fun hfile hdir => ?_⟩
  · by_cases hfile : IsAbsolute file
    · rw [join_of_isAbsolute hfile]
      exact iff_of_false (below_ne pinfoHome_ne_empty).symm fun h => h.1 hfile
    · rw [join_of_not_isAbsolute hfile]
      by_cases hdir : IsAbsolute dir
      · rw [join_of_isAbsolute hdir]
        by_cases hproject : l.projectDir = ""
        · rw [pinfoHome, hproject, below_empty]
          exact iff_of_true rfl ⟨hfile, fun _ => rfl⟩
        · exact iff_of_false (below_pinfoHome_ne hdir hproject) fun h => hproject (h.2 hdir)
      · rw [join_of_not_isAbsolute hdir]
        exact iff_of_true rfl ⟨hfile, fun h => absurd h hdir⟩
  · rw [hpath]
    exact staysUnder_below_iff pinfoHome_ne_empty
  · rw [join_of_not_isAbsolute hfile, join_of_isAbsolute hdir]

end Layout

/-! ## Paths of built models -/

namespace Declared.Component

/-- The directory to which persistent information belongs. -/
def pinfoDir (c : Component) (l : Layout) (isPrivate : Bool) : String :=
  if isPrivate then c.directory else l.integrationDir

variable {c : Component} {r : TypeRegistry} {d : Ecoa.Deployment} {layout : Layout}
  {sites : List ModuleSite} {site : ModuleSite}

/-- Each path is that of a value. -/
theorem exists_value_of_pinfoEntry (hsite : site.IsOf c) {isPrivate : Bool} {declared : Pinfo}
    {group : String} {p : Ecoa.Pinfo}
    (h : (c.context r d layout sites).pinfoEntry site isPrivate declared = .ok ⟨.pinfo, group, p⟩)
    {key path : String} (hpath : p.paths.get? key = some path) :
    p.scope.component = c.name ∧ ∃ i u text value,
      c.HasValue (·.pinfoValues) p.name d p.scope.moduleImplementation i u text ∧
        key = c.name ++ ":" ++ i ++ ":" ++ u ∧ d.expand? u text = some value ∧
          path = layout.pinfoPath c.directory value p.isPrivate := by
  obtain ⟨found, hfound, ⟨⟩⟩ := bind_ok_iff.mp h
  obtain ⟨⟨_, value⟩, hvalue, ⟨⟩⟩ := List.mem_map.mp (OrderedMap.mem_of_get?_ofList hpath)
  obtain ⟨i, u, text, htext, hkey, hexpand⟩ :=
    exists_hasValue_of_deployedValues_ok hsite hfound (OrderedMap.get?_eq_some_iff.mpr hvalue)
  exact ⟨hsite.component, i, u, text, value, htext, hkey, hexpand, rfl⟩

end Declared.Component

/-- Persistent information that a model holds comes from a module of a component. -/
theorem Model.IsFilled.exists_pinfoEntry {m : Model} {project : Declared.Project} {layout : Layout}
    (h : m.IsFilled project layout) {i : Nat} {p : Pinfo} (hp : m.pinfos.get? i = some p) :
    ∃ c ∈ project.components, ∃ sites site isPrivate declared group, site.IsOf c ∧
      (c.context m.registry m.deployment layout sites).pinfoEntry site isPrivate declared =
        .ok ⟨.pinfo, group, p⟩ := by
  obtain ⟨group, hentry⟩ := Store.get?_eq_some_iff.mp hp
  have hholds : m.Holds ⟨.pinfo, group, p⟩ := Array.mem_of_getElem? hentry
  obtain ⟨c, hc, hmem⟩ := h.holds_iff.mp hholds
  obtain ⟨sites, hsites, hentries⟩ := (h.buildable c hc).hasEntries
  have hbuilt : .ok ⟨.pinfo, group, p⟩ ∈
      (c.context m.registry m.deployment layout sites).entries :=
    hentries ▸ List.mem_map_of_mem hmem
  obtain ⟨site, hsite, isPrivate, declared, hpinfo⟩ :=
    ComponentContext.exists_pinfoEntry hbuilt rfl
  exact ⟨c, hc, sites, site, isPrivate, declared, group, ModuleSite.isOf_of_all hsites hsite,
    hpinfo⟩

/-- Each path of persistent information in a model that is built is that of a value which an
instance of the module declares and has under a component instance, if need be from the properties
of that component instance. The value without its quotes is a file below the directory `Pinfo` of
the component, or of the integration when the information is public, unless it begins with a
slash. -/
theorem Builder.Builds.exists_pinfo_value {b : Builder} {m : Model} (hb : b.Builds m) {i : Nat}
    {p : Pinfo} (hp : m.pinfos.get? i = some p) {key path : String}
    (hpath : p.paths.get? key = some path) :
    ∃ c ∈ b.project.components, p.scope.component = c.name ∧ ∃ moduleInstance u text value,
      c.HasValue (·.pinfoValues) p.name m.deployment p.scope.moduleImplementation moduleInstance u
        text ∧
      key = c.name ++ ":" ++ moduleInstance ++ ":" ++ u ∧
      m.deployment.expand? u text = some value ∧
      b.config.layout.Places (c.pinfoDir b.config.layout p.isPrivate)
        (Text.remove (· = '"') value) path := by
  obtain ⟨m₀, hm₀, hlink⟩ := hb.exists_filled
  rw [Model.link_fst_eq] at hlink
  have hpinfos : m.pinfos = m₀.pinfos := by rw [hlink]
  have hdeployment : m.deployment = m₀.deployment := by rw [hlink]
  rw [hpinfos] at hp
  rw [hdeployment]
  obtain ⟨c, hc, sites, site, isPrivate, declared, group, hsite, hentry⟩ :=
    hm₀.exists_pinfoEntry hp
  obtain ⟨hcomponent, i, u, text, value, htext, hkey, hexpand, rfl⟩ :=
    Declared.Component.exists_value_of_pinfoEntry hsite hentry hpath
  exact ⟨c, hc, hcomponent, i, u, text, value, htext, hkey, hexpand, Layout.places_join⟩

/-! ## A table that a property of the component instance names -/

namespace Declared

/-- A component that reads a table; its component instance has the value as name of the file. -/
def tableProject (value : String) : Project where
  libraries := []
  components := [{
    name := "C"
    directory := "C"
    uses := []
    moduleTypes := [⟨"Gen", Operations.none, [], [], [⟨"table"⟩]⟩]
    moduleImplementations := [⟨"gen", "Gen", "C"⟩]
    moduleInstances := [⟨"g", "gen", [], [⟨"table", "$file"⟩]⟩]
    triggerInstances := []
    dynamicTriggerInstances := []
    eventLinks := []
    requestLinks := []
    dataLinks := [] }]
  deployment := ⟨[⟨"pd", [⟨"c", "g"⟩]⟩]⟩
  assembly := ⟨[⟨"c", "C", .ofList [("file", value)]⟩], []⟩

end Declared

/-- A file that does not begin with a slash is below the directory of the component. -/
theorem Builder.Builds.exists_pinfo_value_tableProject :
    ∃ m p, (Builder.new (Declared.tableProject "\"sine.bin\"")).Builds m ∧
      m.pinfos.get? 0 = some p ∧ p.paths.get? "C:g:c" = some "./C/Pinfo/sine.bin" ∧
      "./C/Pinfo/sine.bin" = below (BuildConfig.default.layout.pinfoHome "C") "sine.bin" ∧
      StaysUnder (BuildConfig.default.layout.pinfoHome "C") "./C/Pinfo/sine.bin" := by
  refine ⟨_, _, ⟨_, _, rfl, rfl⟩, rfl, rfl, ?_⟩
  obtain ⟨c, hc, -, i, u, text, value, ⟨⟨hi, hu⟩, htext⟩, -, hexpand, hplaces⟩ :=
    exists_pinfo_value (b := Builder.new (Declared.tableProject "\"sine.bin\"")) ⟨_, _, rfl, rfl⟩
      (i := 0) rfl (show OrderedMap.get? _ "C:g:c" = some _ from rfl)
  obtain rfl := List.mem_singleton.mp hc
  obtain rfl : i = "g" := List.mem_singleton.mp hi
  obtain rfl : u = "c" := List.mem_singleton.mp hu
  cases htext
  cases hexpand
  have hbelow := hplaces.below_iff.mpr (by decide)
  exact ⟨hbelow, (hplaces.stays_iff hbelow).mpr (by decide)⟩

/-- One that does is not. -/
theorem Builder.Builds.exists_absolute_tableProject :
    ∃ m p, (Builder.new (Declared.tableProject "/tables/sine.bin")).Builds m ∧
      m.pinfos.get? 0 = some p ∧ p.paths.get? "C:g:c" = some "/tables/sine.bin" ∧
      "/tables/sine.bin" ≠ below (BuildConfig.default.layout.pinfoHome "C") "/tables/sine.bin" ∧
      ¬ StaysUnder (BuildConfig.default.layout.pinfoHome "C") "/tables/sine.bin" :=
  ⟨_, _, ⟨_, _, rfl, rfl⟩, rfl, rfl, by decide, fun h => absurd h.1 (by decide)⟩

end Ecoa
