import DesignPages.CommandLine.Execution
import DesignPages.Proofs.CommandLine.Path
import DesignPages.Proofs.Page.Document

/-!
# Imports and written files

The page that a command writes imports every component from a path, and the command writes the
component to a path.  The first is made by trimming the folder of the components and appending to it,
the second by joining paths.  Seen from the folder of the page, both are the same up to repeated
slashes and single dots, whatever the folder of the components is called, unless it has no name at
all: then the page imports from the root, and the components stand beside the page.
-/

namespace DesignPages
namespace Component

variable {x : Component}

theorem slash_not_mem_fileName (h : IsIdentifier x.name) : '/' ∉ x.fileName.toList := by
  have hname : '/' ∉ x.name.toList := fun hmem =>
    absurd (h.isAlphanum_of_mem '/' hmem) (by decide)
  have hending : '/' ∉ ".astro".toList := by decide
  rw [fileName, String.toList_append, List.mem_append, not_or]
  exact ⟨hname, hending⟩

theorem isIdle_fileName (x : Component) : Path.isIdle x.fileName.toList = false := by
  have hlength : 6 ≤ x.fileName.toList.length := by
    rw [fileName, String.toList_append, List.length_append]
    exact Nat.le_add_left _ _
  cases hidle : Path.isIdle x.fileName.toList with
  | false => rfl
  | true =>
      rcases Bool.or_eq_true_iff.mp hidle with hempty | hdot
      · rw [beq_iff_eq.mp hempty] at hlength
        contradiction
      · rw [beq_iff_eq.mp hdot] at hlength
        contradiction

theorem way_fileName (h : IsIdentifier x.name) :
    Path.way x.fileName.toList = [x.fileName.toList] :=
  Path.way_of_name (slash_not_mem_fileName h) x.isIdle_fileName

theorem isAbsolute_fileName (h : IsIdentifier x.name) : Path.isAbsolute x.fileName = false := by
  rw [Path.isAbsolute, beq_eq_false_iff_ne]
  exact fun hhead => slash_not_mem_fileName h (List.mem_of_head? hhead)

end Component

namespace Page

/-! ## The path of an import -/

theorem toList_importPath (dir : String) (x : Component) :
    (importPath dir x).toList = (trimSlashes dir).toList ++ '/' :: x.fileName.toList := by
  simp [importPath]

/-- On the path of an import stand the names of the folder and the file. -/
theorem way_importPath (dir : String) {x : Component} (h : IsIdentifier x.name) :
    Path.way (importPath dir x).toList = Path.way dir.toList ++ [x.fileName.toList] := by
  obtain ⟨slashes, hdir, hslashes, -⟩ := exists_slashes dir
  rw [toList_importPath, Path.way_append_slash, Component.way_fileName h, hdir,
    Path.way_append_slashes _ hslashes]

/-- The path of an import starts at the root if the folder does, or if it has no name. -/
theorem isAbsolute_importPath (dir : String) (x : Component) :
    Path.isAbsolute (importPath dir x) = true ↔ dir = "" ∨ Path.isAbsolute dir = true := by
  obtain ⟨slashes, hdir, hslashes, -⟩ := exists_slashes dir
  rw [Path.isAbsolute, Path.isAbsolute, toList_importPath, beq_iff_eq, beq_iff_eq,
    ← String.toList_eq_nil_iff, hdir]
  cases (trimSlashes dir).toList with
  | cons c cs => simp
  | nil =>
      cases slashes with
      | nil => simp
      | cons d slashes => simp [hslashes d List.mem_cons_self]

end Page

namespace CommandLine

/-- The path to which a component is written. -/
def writtenPath (out dir : String) (x : Component) : String :=
  Path.join (Path.join out dir) x.fileName

variable {out dir : String} {x : Component}

theorem isAbsolute_writtenPath (out dir : String) (h : IsIdentifier x.name) :
    Path.isAbsolute (writtenPath out dir x) = Path.isAbsolute (Path.join out dir) :=
  Path.isAbsolute_join _ (Component.isAbsolute_fileName h)

theorem way_writtenPath (out dir : String) (h : IsIdentifier x.name) :
    Path.way (writtenPath out dir x).toList =
      Path.way (Path.join out dir).toList ++ [x.fileName.toList] := by
  rw [writtenPath, Path.way_join _ (Component.isAbsolute_fileName h), Component.way_fileName h]

theorem same_importPath_of_isAbsolute (out : String) (h : IsIdentifier x.name)
    (hdir : Path.isAbsolute dir = true) :
    Path.Same (Path.join out (Page.importPath dir x)) (writtenPath out dir x) := by
  have himport : Path.isAbsolute (Page.importPath dir x) = true :=
    (Page.isAbsolute_importPath dir x).mpr (.inr hdir)
  rw [Path.Same, isAbsolute_writtenPath out dir h, way_writtenPath out dir h,
    Path.join_of_isAbsolute out himport, Path.join_of_isAbsolute out hdir,
    Page.way_importPath dir h, himport, hdir]
  exact ⟨rfl, rfl⟩

theorem same_importPath_of_relative (out : String) (h : IsIdentifier x.name) (hne : dir ≠ "")
    (hdir : Path.isAbsolute dir = false) :
    Path.Same (Path.join out (Page.importPath dir x)) (writtenPath out dir x) := by
  have himport : Path.isAbsolute (Page.importPath dir x) = false := by
    rw [← Bool.not_eq_true, Page.isAbsolute_importPath]
    simp [hne, hdir]
  rw [Path.Same, isAbsolute_writtenPath out dir h, way_writtenPath out dir h,
    Path.isAbsolute_join out himport, Path.isAbsolute_join out hdir, Path.way_join out himport,
    Path.way_join out hdir, Page.way_importPath dir h, List.append_assoc]
  exact ⟨rfl, rfl⟩

/-- Without a folder, a component is imported from the root. -/
theorem same_importPath_empty_iff (out : String) (h : IsIdentifier x.name) :
    Path.Same (Path.join out (Page.importPath "" x)) (writtenPath out "" x) ↔
      Path.Same out "/" := by
  have himport : Path.isAbsolute (Page.importPath "" x) = true :=
    (Page.isAbsolute_importPath "" x).mpr (.inl rfl)
  have hrelative : Path.isAbsolute "" = false := rfl
  have hnothing : Path.way "".toList = [] := rfl
  have hroot : Path.isAbsolute "/" = true ∧ Path.way "/".toList = [] := by decide
  rw [Path.Same, Path.Same, isAbsolute_writtenPath out "" h, way_writtenPath out "" h,
    Path.join_of_isAbsolute out himport, Path.isAbsolute_join out hrelative,
    Path.way_join out hrelative, Page.way_importPath "" h, himport, hnothing, hroot.1, hroot.2,
    List.append_nil, List.append_left_inj]
  exact and_congr eq_comm eq_comm

/-- A component is imported from where it is written, unless its folder has no name and the page does
not stand at the root. -/
theorem same_importPath_iff (out dir : String) (h : IsIdentifier x.name) :
    Path.Same (Path.join out (Page.importPath dir x)) (writtenPath out dir x) ↔
      dir ≠ "" ∨ Path.Same out "/" := by
  by_cases hempty : dir = ""
  · rw [hempty, same_importPath_empty_iff out h]
    simp
  · have hsame : Path.Same (Path.join out (Page.importPath dir x)) (writtenPath out dir x) := by
      cases hdir : Path.isAbsolute dir with
      | true => exact same_importPath_of_isAbsolute out h hdir
      | false => exact same_importPath_of_relative out h hempty hdir
    exact iff_of_true hsame (.inl hempty)

/-- Both paths end in the file of the component, so that what is written to one of them is written to
the other. -/
theorem write?_importPath (h : IsIdentifier x.name)
    (hsame : Path.Same (Path.join out (Page.importPath dir x)) (writtenPath out dir x))
    (f : Folder) (content : String) :
    f.write? (Path.join out (Page.importPath dir x)) content =
      f.write? (writtenPath out dir x) content := by
  have hfile := Path.segments_of_slash_not_mem (Component.slash_not_mem_fileName h)
  refine Folder.write?_of_same hsame ?_ x.isIdle_fileName ?_ x.isIdle_fileName content
  · rw [Path.getLast?_segments_join, Page.toList_importPath, Path.segments_append_slash, hfile,
      List.getLast?_concat]
  · rw [writtenPath, Path.getLast?_segments_join, hfile, List.getLast?_singleton]

/-- Every line that imports a component into a generated page names a path which, seen from the folder
of the page, is the one to which the component is written, up to repeated slashes and single dots,
except that without a folder for the components this holds at the root only. -/
theorem generate_imports_written_files (out : String) (options : Options)
    (frames : List AnalyzedFrame) :
    ∃ c imports document, Compilation.generate options frames = .ok c ∧
      c.page.source.toList =
        Markup.joinLines (["---".toList] ++ imports ++ ["---".toList, document]) ∧
      pageSteps out options.page.componentsDir c.page =
        [.makeFolder (Path.join out options.page.componentsDir)] ++
          c.page.components.map (fun x =>
            .writeFile (writtenPath out options.page.componentsDir x) x.source) ++
          [.writeFile (Path.join out Page.fileName) c.page.source] ∧
      List.Forall₂ (fun line x => ∃ path : String,
        Script.import? line = some (x.name.toList, path.toList) ∧
        (Path.Same (Path.join out path) (writtenPath out options.page.componentsDir x) ↔
          options.page.componentsDir ≠ "" ∨ Path.Same out "/") ∧
        (Path.Same (Path.join out path) (writtenPath out options.page.componentsDir x) →
          ∀ (f : Folder) (content : String), f.write? (Path.join out path) content =
            f.write? (writtenPath out options.page.componentsDir x) content))
        imports c.page.components := by
  have hnames : ∀ x ∈ Page.order (selection frames), IsIdentifier x.name := fun x hx =>
    isIdentifier_of_mem_selection ((Page.order_perm _).mem_iff.mp hx)
  refine ⟨_, (Page.order (selection frames)).map (Page.importLine options.page.componentsDir), _,
    Compilation.generate_eq options frames,
    String.toList_ofList.trans (Page.joinLines_lines _ _), rfl, ?_⟩
  rw [List.forall₂_map_left_iff, List.forall₂_same]
  intro x hx
  exact ⟨Page.importPath options.page.componentsDir x,
    Page.import?_importLine _ (hnames x hx), same_importPath_iff out _ (hnames x hx),
    write?_importPath (hnames x hx)⟩

/-- The standard options with another folder for the components. -/
def optionsWithFolder (dir : String) : Options :=
  { Options.standard with page := { PageOptions.standard with componentsDir := dir } }

/-- A frame that becomes a card. -/
def sampleCard : AnalyzedFrame :=
  ⟨⟨"1:1", "Plan", ["Basic"], false, none, ⟨none, false, none, none, none⟩⟩, .card, false⟩

/-- The card in `../parts//` is imported from where it is written, and the one without a folder is
not. -/
theorem generate_imports_sampleCard :
    (∃ c line path x, Compilation.generate (optionsWithFolder "../parts//") [sampleCard] = .ok c ∧
      x ∈ c.page.components ∧ Script.import? line = some (x.name.toList, String.toList path) ∧
      Path.Same (Path.join "site" path) (writtenPath "site" "../parts//" x)) ∧
    ∃ c line path x, Compilation.generate (optionsWithFolder "") [sampleCard] = .ok c ∧
      x ∈ c.page.components ∧ Script.import? line = some (x.name.toList, String.toList path) ∧
      ¬Path.Same (Path.join "site" path) (writtenPath "site" "" x) := by
  have hone (dir : String) {c : Compilation}
      (hc : Compilation.generate (optionsWithFolder dir) [sampleCard] = .ok c) :
      ∃ x, c.page.components = [x] := by
    rw [Compilation.generate_eq, Except.ok.injEq] at hc
    have hlength : (Page.order (selection [sampleCard])).length = 1 := by decide +kernel
    rw [← hc]
    exact List.length_eq_one_iff.mp hlength
  constructor
  · obtain ⟨c, imports, -, hc, -, -, hall⟩ :=
      generate_imports_written_files "site" (optionsWithFolder "../parts//") [sampleCard]
    obtain ⟨x, hx⟩ := hone _ hc
    rw [hx] at hall
    obtain ⟨line, -, ⟨path, hline, hsame, -⟩, -, -⟩ := List.forall₂_cons_right_iff.mp hall
    exact ⟨c, line, path, x, hc, by simp [hx], hline, hsame.mpr (.inl (by decide))⟩
  · obtain ⟨c, imports, -, hc, -, -, hall⟩ :=
      generate_imports_written_files "site" (optionsWithFolder "") [sampleCard]
    obtain ⟨x, hx⟩ := hone _ hc
    rw [hx] at hall
    obtain ⟨line, -, ⟨path, hline, hsame, -⟩, -, -⟩ := List.forall₂_cons_right_iff.mp hall
    have hroot : ¬Path.Same "site" "/" := by decide
    refine ⟨c, line, path, x, hc, by simp [hx], hline, fun h => ?_⟩
    exact (hsame.mp h).elim (fun hne => hne rfl) hroot

end CommandLine
end DesignPages
