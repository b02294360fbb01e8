/-
A run of the program that fails has touched no file, and neither has a dry
run.

Everything that can go wrong with the arguments, the profiles, the ignore
file and the project goes wrong before the batch runs, and all that is done
by then keeps the workspace (`comesTo_work`). Then the batch runs, and a batch
fails for one reason only: a directory cannot be listed (`run_journey`). No
file that fails ends it, so nothing else is left to fail behind the first
write.

A directory that cannot be listed then could not be listed before, or its path
has lost a link by what the run did itself (`losesWay_of_halt`). On a machine's
tree the first happens to paths that are too long, and the second if the path
of the directory on the line goes through a link that has the name of a
temporary file (`halt_of_sound`). One file that fails is enough for that: it
takes the link away, and the run ends although every directory of the tree can
be listed (`detour`).
-/
import TaggedSource.Proofs.CommandLine
import TaggedSource.Proofs.Independence
import TaggedSource.Proofs.LostLinks
import TaggedSource.Proofs.MarkerLeads
import TaggedSource.Program

namespace TaggedSource

open TaggedSource.Action

-- ============================================================ preparation

private theorem Catalogue.keeps_register {σ : Type} (catalogue : Catalogue) (profile : Profile) :
    Keeps (catalogue.register profile : Action σ Catalogue) := by
  unfold register
  refine (keeps_ofExcept _).bind fun _ => ?_
  split
  · exact keeps_fail _
  · exact (keeps_log _).bind fun _ => keeps_pure _

private theorem Catalogue.keeps_registerAll {σ : Type} (catalogue : Catalogue)
    (profiles : List Profile) :
    Keeps (catalogue.registerAll profiles : Action σ Catalogue) := by
  induction profiles generalizing catalogue with
  | nil => exact keeps_pure _
  | cons profile profiles ih => exact (catalogue.keeps_register profile).bind ih

private theorem Catalogue.keeps_load (path : Text) : (Catalogue.load path).Keeps := by
  unfold load
  refine keeps_get.bind fun tree => (keeps_ofExcept _).bind fun file => (keeps_log _).bind fun _ =>
    (keeps_ofExcept _).bind fun content => ?_
  unfold ofText
  split
  · exact keeps_registerAll _ _
  · exact keeps_fail _

private theorem IgnoreList.keeps_load (directory : Text) : (IgnoreList.load directory).Keeps := by
  unfold load
  refine keeps_get.bind fun tree => ?_
  split
  · exact keeps_ofExcept _
  · exact (keeps_log _).bind fun _ => keeps_ofExcept _
  · exact keeps_fail _

private theorem Batch.root_of_forProject {catalogue : Catalogue} {project : Text} {pass : Pass}
    {root : Text}
    {ignored : IgnoreList} {batch : Batch}
    (h : forProject catalogue project pass root ignored = .ok batch) : batch.root = root := by
  rw [forProject] at h
  cases hget : catalogue.get project with
  | error cause =>
      rw [hget] at h
      cases h
  | ok profile =>
      rw [hget] at h
      cases h
      rfl

/-- What keeps the tree keeps the workspace. -/
private theorem Workspace.keeps_onTree {α : Type} {a : Action FileTree α} (h : a.Keeps) :
    (Workspace.onTree a).Keeps :=
  h.onPart fun _ => rfl

namespace Program

open CommandLine

/-- What working off arguments comes to: a failure that leaves the workspace
as it was, or a run of a batch on the workspace as it was. -/
def ComesTo (arguments : Arguments) (w : Workspace) (result : Except Failure Tally)
    (state : Workspace) : Prop :=
  (∃ cause, result = .error cause ∧ state = w) ∨
    ∃ batch : Batch, batch.root = arguments.directory ∧
      result = ((batch.run ⟨arguments.recursive, arguments.dryRun⟩).run w).result ∧
        state = ((batch.run ⟨arguments.recursive, arguments.dryRun⟩).run w).state

/-- Whatever the arguments, the work comes to one of these ends. -/
private theorem comesTo_work (arguments : Arguments) (w : Workspace) :
    ComesTo arguments w ((work arguments).run w).result ((work arguments).run w).state := by
  have hfail (cause : Failure) : ComesTo arguments w (.error cause) w := .inl ⟨cause, rfl, rfl⟩
  unfold work
  refine keeps_get.run_bind hfail fun workspace _ => ?_
  split
  · exact hfail _
  · simp only
    split
    case' h_1 path _ =>
      refine (Workspace.keeps_onTree (Catalogue.keeps_load path)).run_bind hfail fun catalogue _ => ?_
    case' h_2 => refine (Catalogue.keeps_registerAll _ _).run_bind hfail fun catalogue _ => ?_
    -- from the catalogue on it does not matter where it is from
    all_goals
      refine (Workspace.keeps_onTree (IgnoreList.keeps_load _)).run_bind hfail fun ignored _ => ?_
      refine (keeps_ofExcept _).run_bind hfail fun batch hbatch => ?_
      rw [run_ofExcept] at hbatch
      exact .inr ⟨batch, Batch.root_of_forProject hbatch, rfl, rfl⟩

/-- A directory that ends a run, which has changed a tree: it cannot be listed
and could not be listed before, unless its path has lost its way. -/
structure Strands (before after : FileTree) (root directory : Text) (fault : Fault) : Prop where
  /-- It cannot be listed. -/
  fails : after.readDirectory directory = .error fault
  /-- It could not be listed before, or a link on the way was lost. -/
  failed : (∃ fault', before.readDirectory directory = .error fault') ∨
    before.LosesWay after directory
  /-- On a machine's tree its path is too long, or a link on the way to the
  root was lost. -/
  long : before.Sound →
    FileTree.maxPath < Text.byteSize directory ∨ before.LosesWay after root

/-- Without links no way is lost. -/
theorem Strands.long_of_clear {before after : FileTree} {root directory : Text} {fault : Fault}
    (h : Strands before after root directory fault) (hsound : before.Sound)
    (hclear : before.Clear) : FileTree.maxPath < Text.byteSize directory := by
  rcases h.long hsound with hlong | ⟨route, last, hroute, upper, name, hmem, -⟩
  · exact hlong
  · obtain ⟨target, hlink⟩ := hroute.link_of_mem hmem
    exact absurd hlink (hclear.no_link _ target)

/-- A batch that fails has left the tree alone, or has come to a directory
that cannot be listed. -/
theorem batch_error {batch : Batch} {recursive dryRun : Bool} {w : Workspace} {cause : Failure}
    (h : ((batch.run ⟨recursive, dryRun⟩).run w).result = .error cause) :
    ((batch.run ⟨recursive, dryRun⟩).run w).state.tree = w.tree ∨
      ∃ directory fault, cause = .walk directory fault ∧ Strands w.tree
        ((batch.run ⟨recursive, dryRun⟩).run w).state.tree batch.root directory fault := by
  by_cases hroot : w.tree.lookAt .target batch.root = .ok .directory
  · obtain ⟨hends, hhalt⟩ := batch.run_journey ⟨recursive, dryRun⟩ w
    cases hjourney : (batch.journey ⟨recursive, dryRun⟩ w).halt with
    | none =>
        rw [hjourney, h] at hhalt
        cases hhalt
    | some ended =>
        obtain ⟨directory, fault⟩ := ended
        rw [hjourney, h] at hhalt
        refine .inr ⟨directory, fault, Except.error.inj hhalt, ?_⟩
        rw [hends]
        refine ⟨Batch.readDirectory_of_halt hjourney, ?_, fun hsound =>
          Batch.halt_of_sound hsound hroot hjourney⟩
        cases hlist : w.tree.readDirectory directory with
        | error fault' => exact .inl ⟨fault', rfl⟩
        | ok entries => exact .inr (Batch.losesWay_of_halt hjourney hlist)
  · obtain ⟨-, hstate⟩ := Batch.run_of_not_directory hroot recursive dryRun w.source
    refine .inl ?_
    rw [show w = ⟨w.tree, w.source⟩ from rfl, hstate]

/-- With the flag for it the tree is not touched, whatever the result. -/
private theorem tree_work_dry {arguments : Arguments} (hdry : arguments.dryRun = true)
    (w : Workspace) :
    ((work arguments).run w).state.tree = w.tree := by
  rcases comesTo_work arguments w with ⟨-, -, hstate⟩ | ⟨batch, -, -, hstate⟩
  · rw [hstate]
  · rw [hstate, hdry]
    exact batch.tree_run_dry arguments.recursive w

end Program

/-- A run that ends with a failure has left the tree as it was, or has come
to a directory that could not be listed in the tree as it was either, unless
the run has taken a link off its path that has the name of a temporary file.
On a machine's tree this means that the path is too long, or that such a link
was on the path on the line; without links it is too long. A line with the
word for a dry run leaves the tree as it was. -/
theorem failing_run_touches_nothing (words : List Text) (w : Workspace) :
    let after := (Program.run words w).2
    ((Program.run words w).1.status ≠ 0 → after.tree = w.tree ∨
      ∃ arguments directory fault, CommandLine.parse words = .ok arguments ∧
        ((Program.work arguments).run w).result = .error (.walk directory fault) ∧
        after.tree.readDirectory directory = .error fault ∧
        ((∃ fault', w.tree.readDirectory directory = .error fault') ∨
          w.tree.LosesWay after.tree directory) ∧
        (w.tree.Sound → FileTree.maxPath < Text.byteSize directory ∨
          w.tree.LosesWay after.tree arguments.directory) ∧
        (w.tree.Sound → w.tree.Clear → FileTree.maxPath < Text.byteSize directory)) ∧
    ∀ arguments, CommandLine.parse words = .ok arguments →
      text "--dry-run" ∈ words.takeWhile (· ≠ ['-', '-']) → after.tree = w.tree := by
  intro after
  have hafter : after = (Program.run words w).2 := rfl
  unfold Program.run at hafter ⊢
  cases hparse : CommandLine.parse words with
  | error stop =>
      rw [hparse] at hafter
      rw [hafter]
      exact ⟨fun _ => .inl rfl, fun _ _ _ => rfl⟩
  | ok arguments =>
      simp only [hparse] at hafter ⊢
      rw [hafter]
      refine ⟨fun hstatus => ?_, fun _ harguments hword => ?_⟩
      · cases hresult : ((Program.work arguments).run w).result with
        | ok tally =>
            rw [Program.reportOn, hresult] at hstatus
            exact absurd rfl hstatus
        | error cause =>
            rcases Program.comesTo_work arguments w with ⟨-, -, hstate⟩ | ⟨batch, hroot, hrun, hstate⟩
            · rw [hstate]
              exact .inl rfl
            · rw [hstate]
              rcases Program.batch_error (hrun.symm.trans hresult) with hsame |
                ⟨directory, fault, rfl, hstrands⟩
              · exact .inl hsame
              · rw [hroot] at hstrands
                exact .inr ⟨arguments, directory, fault, rfl, hresult, hstrands.fails,
                  hstrands.failed, hstrands.long, hstrands.long_of_clear⟩
      · cases harguments
        exact Program.tree_work_dry ((CommandLine.parse_dryRun hparse).2 hword) w

/-- A file that a pass would change. -/
def loneFile : Workspace where
  tree := { home := [], entries := [([text "a.js"], .file (Utf8.encode (text "x  \n")) 0o600)] }
  source := .ofWords [] 0

/-- A line whose profiles are missing. -/
def strayLine : List Text := [text "-xp", text "missing", text "Orientamento", text "."]

/-- A line that asks for a dry run. -/
def dryLine : List Text := [text "Orientamento", text "--dry-run", text ".", text "-x"]

theorem failing_run_touches_nothing_loneFile :
    (Program.run strayLine loneFile).1.status = 1 ∧
      (Program.run strayLine loneFile).2.tree = loneFile.tree ∧
      (∃ arguments, CommandLine.parse dryLine = .ok arguments) ∧
      (Program.run dryLine loneFile).2.tree = loneFile.tree := by
  have hstray : CommandLine.parse strayLine
      = .ok ⟨.transform, text "Orientamento", text ".", some (text "missing"), false, false, false⟩ := by
    decide +kernel
  have hdry : CommandLine.parse dryLine
      = .ok ⟨.transform, text "Orientamento", text ".", none, false, true, false⟩ := by decide +kernel
  have hcause : ((Program.work ⟨.transform, text "Orientamento", text ".", some (text "missing"),
      false, false, false⟩).run loneFile).result
        = .error (.misconfigured (.notProfilePath (text "missing"))) := by cbv
  have hstatus : (Program.run strayLine loneFile).1.status = 1 := by
    rw [Program.run, hstray]
    simp only [Program.reportOn, hcause]
  obtain ⟨hfails, -⟩ := failing_run_touches_nothing strayLine loneFile
  obtain ⟨-, hdryRun⟩ := failing_run_touches_nothing dryLine loneFile
  refine ⟨hstatus, ?_, ⟨_, hdry⟩, hdryRun _ hdry (by decide)⟩
  rcases hfails (by simp [hstatus]) with hsame | ⟨arguments, _, _, hparse, hwalk, -⟩
  · exact hsame
  · -- the cause is another one
    cases hstray.symm.trans hparse
    rw [hcause] at hwalk
    cases hwalk

-- ==================================================== a way that is lost

/-- The ignore list of a directory without an ignore file. -/
def plainList : IgnoreList where
  globs :=
    [⟨.directories :: (text ".git").map .literal ++ [.descendants]⟩,
      ⟨.directories :: (text ".DS_Store").map .literal⟩]

/-- Where there is no ignore file, the list has the two patterns that are
always there. -/
private theorem IgnoreList.load_of_noEntry {directory : Text} {tree : FileTree}
    (h : tree.readText (Path.join directory fileName) = .error .noEntry) :
    ((IgnoreList.load directory).run tree).result = .ok plainList := by
  have hplain : ofContent [] = .ok plainList := by with_unfolding_all rfl
  rw [load]
  simp only [Action.run_bind, Action.run_get, Action.goOn_ok, h, Action.run_log, hplain]
  rfl

/-- With the built-in profiles, working off arguments is running the batch for
the project with the ignore list of the directory. -/
private theorem Program.work_of_batch {arguments : CommandLine.Arguments} {w : Workspace}
    (hdirectory : w.tree.isDirectory arguments.directory = true)
    (hprofiles : arguments.profiles = none) {ignored : IgnoreList}
    (hignored : ((IgnoreList.load arguments.directory).run w.tree).result = .ok ignored)
    {batch : Batch}
    (hbatch : Batch.forProject ⟨[Builtin.orientamento, Builtin.snifferUtil]⟩ arguments.project
      arguments.pass arguments.directory ignored = .ok batch) :
    ((work arguments).run w).result
        = ((batch.run ⟨arguments.recursive, arguments.dryRun⟩).run w).result ∧
      ((work arguments).run w).state
        = ((batch.run ⟨arguments.recursive, arguments.dryRun⟩).run w).state := by
  have hget : (Action.get.run w).result = .ok w := rfl
  have hbuiltin : (Catalogue.builtin : Action Workspace Catalogue).Keeps :=
    Catalogue.keeps_registerAll _ _
  have hkeeps : (Workspace.onTree (IgnoreList.load arguments.directory)).Keeps :=
    Workspace.keeps_onTree (IgnoreList.keeps_load _)
  have hload : ((Workspace.onTree (IgnoreList.load arguments.directory)).run w).result
      = .ok ignored := hignored
  have hproject : ((Action.ofExcept (Batch.forProject ⟨[Builtin.orientamento, Builtin.snifferUtil]⟩
      arguments.project arguments.pass arguments.directory ignored)).run w).result = .ok batch := by
    rw [run_ofExcept, hbatch]
  rw [work, (keeps_get.run_bind_of_ok hget).1, (keeps_get.run_bind_of_ok hget).2,
    if_neg (by simp [hdirectory]), hprofiles]
  simp only
  rw [(hbuiltin.run_bind_of_ok (run_builtin w)).1, (hbuiltin.run_bind_of_ok (run_builtin w)).2,
    (hkeeps.run_bind_of_ok hload).1, (hkeeps.run_bind_of_ok hload).2,
    ((keeps_ofExcept _).run_bind_of_ok hproject).1, ((keeps_ofExcept _).run_bind_of_ok hproject).2]
  exact ⟨rfl, rfl⟩

namespace Detour

/-- The name of the temporary file of `a.js`. -/
def root : Text := text ".a.js.piranhito.tmp"

/-- A link that has that name and leads to the directory that it stands in,
two files, and a directory. -/
def tree (first : Text) : FileTree where
  home := []
  entries :=
    [([root], .link (text ".")), ([text "0.js"], .file (Utf8.encode first) 0o644),
      ([text "a.js"], .file (Utf8.encode (text "\n\n")) 0o644), ([text "sub"], .directory)]

/-- Both files have an empty line too many. -/
def before : Workspace := ⟨tree (text "\n\n"), .ofWords [] 0⟩

/-- The first file is rewritten, and the link is gone. -/
def after : FileTree := (tree (text "\n")).erase [root]

/-- A line that names the link. -/
def line : List Text := [text "-xr", text "Orientamento", root]

def batch : Batch := ⟨Builtin.orientamento, .transform, root, plainList⟩

private theorem run_pass (s : WordSource) :
    ((batch.pass.run batch.profile (text "\n\n")).run s).result = .ok (text "\n") := by
  rw [Pass.run_of_literal (by decide) (text "\n\n") (.ofWords [] 0) s]
  decide +kernel

/-- A file is rewritten through the link, as far as that is possible. -/
private theorem handle_file {now : FileTree} {name : Name}
    (hread : now.readBytes (Path.join root name) = .ok (Utf8.encode (text "\n\n")))
    (hdirectory : now.isDirectory (Path.join root name) = false)
    (hignored : plainList.ignores root (Path.join root name) = false)
    (htakes : batch.takes (Path.join root name) = true) {w : Workspace} (h : w.tree = now) :
    ((batch.handle false (Path.join root name)).run w).state.tree
      = (now.overwrite (Path.join root name) (text "\n")).final := by
  have hread : w.tree.readSource (Path.join root name) = .ok (text "\n\n") := by
    rw [h]
    exact FileTree.readSource_eq_ok_iff.2 ⟨_, hread, Utf8.decode_encode _⟩
  obtain ⟨events, source, hhandle⟩ := Batch.run_handle_of_text
    (h ▸ Batch.concerns_of hdirectory hignored htakes) hread (run_pass w.source) (by decide)
  rw [hhandle, h]

private theorem handle_first {w : Workspace} (h : w.tree = before.tree) :
    ((batch.handle false (Path.join root (text "0.js"))).run w).state.tree
      = tree (text "\n") := by
  rw [handle_file (by cbv) (by cbv) (by decide +kernel) (by decide) h]
  cbv

/-- The file cannot be written through the link, and the link is removed. -/
private theorem handle_second {w : Workspace} (h : w.tree = tree (text "\n")) :
    ((batch.handle false (Path.join root (text "a.js"))).run w).state.tree = after := by
  rw [handle_file (by cbv) (by cbv) (by decide +kernel) (by decide) h]
  cbv

private theorem lookAt_before : before.tree.lookAt .target root = .ok .directory := by cbv

/-- The link stands in the directory that it leads to, so it leads to a
directory. -/
private theorem isDirectory_before : before.tree.isDirectory (Path.join root root) = true := by cbv

private theorem readDirectory_before : before.tree.readDirectory root =
    .ok [(root, .link (text ".")), (text "0.js", .file (Utf8.encode (text "\n\n")) 0o644),
      (text "a.js", .file (Utf8.encode (text "\n\n")) 0o644), (text "sub", .directory)] := by cbv

/-- With the link gone, the path through it leads nowhere. -/
private theorem readDirectory_after :
    after.readDirectory (Path.join root (text "sub")) = .error .noEntry := by cbv

/-- The run gets as far as the directory, and has lost its way there. -/
private theorem journey_before :
    (batch.journey ⟨true, false⟩ before).halt = some (Path.join root (text "sub"), .noEntry) ∧
      (batch.journey ⟨true, false⟩ before).workspace.tree = after := by
  have hlook : before.tree.lookAt .target batch.root = .ok .directory := lookAt_before
  have hlist : before.tree.readDirectory batch.root = .ok _ := readDirectory_before
  have hlevels : before.tree.levels true = 2 := by decide
  have hlink : batch.concerns before.tree (Path.join root root) = false := by
    rw [Batch.concerns, isDirectory_before, Bool.not_true, Bool.false_and, Bool.false_and]
  have hsub : batch.concerns after (Path.join root (text "sub")) = false := by
    have htakes : batch.takes (Path.join root (text "sub")) = false := by decide
    rw [Batch.concerns, htakes, Bool.and_false]
  -- the link is skipped, the first file is rewritten, the second takes the link away
  let start : Journey := ⟨[], before, none⟩
  let one := batch.stopBy false (Path.join batch.root root) start
  let two := batch.stopBy false (Path.join batch.root (text "0.js")) one
  let three := batch.stopBy false (Path.join batch.root (text "a.js")) two
  let four := batch.stopBy false (Path.join batch.root (text "sub")) three
  have hone : one.workspace = before := Batch.state_handle_of_not_concerns hlink false
  have htwo : two.workspace.tree = tree (text "\n") := handle_first (congrArg Workspace.tree hone)
  have hthree : three.workspace.tree = after := handle_second htwo
  have hfour : four.workspace.tree = after := by
    rw [← hthree] at hsub
    exact (congrArg Workspace.tree (Batch.state_handle_of_not_concerns hsub false)).trans hthree
  have hfails : four.workspace.tree.readDirectory (Path.join batch.root (text "sub"))
      = .error .noEntry := by
    rw [hfour]
    exact readDirectory_after
  have hjourney : batch.journey ⟨true, false⟩ before
      = batch.travel false 1 (Path.join batch.root (text "sub")) four := by
    rw [Batch.journey, hlook]
    simp only [hlevels, Node.isDirectory, if_true]
    rw [Batch.travel, hlist]
    simp only
    rw [List.foldl_cons, Batch.passBy_of_goes rfl, if_neg (by decide),
      List.foldl_cons, Batch.passBy_of_goes rfl, if_neg (by decide),
      List.foldl_cons, Batch.passBy_of_goes rfl, if_neg (by decide),
      List.foldl_cons, Batch.passBy_of_goes rfl, if_pos (by decide), List.foldl_nil]
  rw [hjourney, Batch.travel, hfails]
  exact ⟨rfl, hfour⟩

end Detour

/-- A run fails behind a file that it has rewritten, although every directory
can be listed before and after: the one file that fails takes the link away
that the run goes through. -/
theorem failing_run_loses_detour :
    Detour.before.tree.Sound ∧
    (∀ path ∈ [text ".", text "sub"],
      (Detour.before.tree.readDirectory path).toOption.isSome = true ∧
        ((Program.run Detour.line Detour.before).2.tree.readDirectory path).toOption.isSome = true) ∧
    (Program.run Detour.line Detour.before).1.status = 1 ∧
    Detour.before.tree.get? [text "0.js"] = some (.file (Utf8.encode (text "\n\n")) 0o644) ∧
    (Program.run Detour.line Detour.before).2.tree.get? [text "0.js"]
      = some (.file (Utf8.encode (text "\n")) 0o644) := by
  let arguments : CommandLine.Arguments :=
    ⟨.transform, text "Orientamento", Detour.root, none, true, false, false⟩
  have hparse : CommandLine.parse Detour.line = .ok arguments := by decide +kernel
  have hdirectory : Detour.before.tree.isDirectory arguments.directory = true := by
    rw [FileTree.isDirectory, Detour.lookAt_before]
  have hignored : ((IgnoreList.load Detour.root).run Detour.before.tree).result = .ok plainList :=
    IgnoreList.load_of_noEntry (by cbv)
  have hproject : Batch.forProject ⟨[Builtin.orientamento, Builtin.snifferUtil]⟩
      arguments.project arguments.pass Detour.root plainList = .ok Detour.batch := rfl
  obtain ⟨hresult, hstate⟩ := Program.work_of_batch hdirectory rfl hignored hproject
  obtain ⟨hends, hhalt⟩ := Detour.batch.run_journey ⟨true, false⟩ Detour.before
  obtain ⟨hhalts, hlost⟩ := Detour.journey_before
  rw [hhalts] at hhalt
  have hafter : (Program.run Detour.line Detour.before).2.tree = Detour.after := by
    rw [Program.run, hparse]
    simp only
    rw [hstate, hends, hlost]
  have hstatus : (Program.run Detour.line Detour.before).1.status = 1 := by
    rw [Program.run, hparse]
    simp only [Program.reportOn, hresult.trans hhalt]
  rw [hafter]
  refine ⟨by decide, List.forall_mem_cons.2 ⟨⟨?_, ?_⟩, List.forall_mem_singleton.2 ⟨?_, ?_⟩⟩, hstatus,
    by decide, by decide⟩
  all_goals cbv

end TaggedSource
