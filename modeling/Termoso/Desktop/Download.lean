import Termoso.Core.Remote

/-!
# Recursive downloads

A download of a directory is planned before it starts: the server is asked for one listing after
another, and each file and directory listed gets a place below the destination, by joining its
name.  A name is a text of the server.  The plan stays inside the destination exactly when the
names listed are safe to join.
-/

namespace Termoso.Desktop

open Core

/-- A file to download. -/
structure Item where
  target : LexicalPath
  remote : String
  size : Option ℕ
deriving DecidableEq

/-- The directories to create, the files to download, and their size. -/
structure Plan where
  dirs : List LexicalPath
  files : List Item
  total : Option ℕ
deriving DecidableEq

/-- The local paths a plan creates or writes. -/
def Plan.targets (p : Plan) : List LexicalPath := p.dirs ++ p.files.map Item.target

section
variable (fs : RemoteFs) (components : String → LexicalPath)

/-- Plan one entry of a listing: a directory is to be created and listed, a file to be copied, and
anything else left out. -/
def planEntry (ldir : LexicalPath) (s : List (String × LexicalPath) × Plan) (e : RemoteEntry) :
    List (String × LexicalPath) × Plan :=
  let lpath := ldir.join (components e.name)
  match e.kind with
  | .dir => ((e.path, lpath) :: s.1, { s.2 with dirs := s.2.dirs ++ [lpath] })
  | .file =>
    (s.1, { s.2 with
      files := s.2.files ++ [⟨lpath, e.path, e.size⟩]
      total := s.2.total.map (· + e.size.getD 0) })
  | _ => s

/-- List the directories on a stack, for the answers of the server, one for each listing. There is
no plan when a listing fails, or is still to be answered. -/
def planDirs : List fs.Answer → List (String × LexicalPath) × Plan → Option Plan
  | _, ([], plan) => some plan
  | [], (_ :: _, _) => none
  | answer :: answers, ((rdir, ldir) :: stack, plan) =>
    (fs.list answer rdir).bind (fun entries =>
      planDirs answers (entries.foldl (planEntry components ldir) (stack, plan)))

/-- Plan the download of `remote` to `target`. `stat` is what the server says about `remote`. -/
def planDownload (stat : Option RemoteEntry) (answers : List fs.Answer) (remote : String)
    (target : LexicalPath) : Option Plan :=
  stat.bind (fun root =>
    if root.kind ≠ .dir then some ⟨[], [⟨target, remote, root.size⟩], root.size⟩
    else planDirs fs components answers ([(remote, target)], ⟨[target], [], some 0⟩))

/-- The entries of the listings that planning reads. -/
def listedIn : List fs.Answer → List String → List RemoteEntry
  | _, [] => []
  | [], _ :: _ => []
  | answer :: answers, rdir :: stack =>
    match fs.list answer rdir with
    | none => []
    | some entries =>
      entries ++ listedIn answers
        (((entries.filter (fun e => decide (e.kind = .dir))).map RemoteEntry.path).reverse ++ stack)

/-- The entries of the listings that planning a download reads. -/
def listed (stat : Option RemoteEntry) (answers : List fs.Answer) (remote : String) :
    List RemoteEntry :=
  stat.elim [] (fun root => if root.kind ≠ .dir then [] else listedIn fs answers [remote])

/-- The files and directories among some entries have names that are safe to join below `root`. -/
def SafeNames (root : LexicalPath) (entries : List RemoteEntry) : Prop :=
  ∀ e ∈ entries, e.kind = .dir ∨ e.kind = .file → root.Safe (components e.name)

end

section
variable {fs : RemoteFs} {components : String → LexicalPath} {root ldir : LexicalPath}
  {stack : List (String × LexicalPath)} {plan plan' : Plan} {entries : List RemoteEntry}
  {answers : List fs.Answer}

/-- The paths of a plan lie inside. -/
def Plan.Inside (root : LexicalPath) (p : Plan) : Prop := ∀ t ∈ p.targets, root.Inside t

/-- Each directory still to be listed is one that the plan creates. -/
def Queued (s : List (String × LexicalPath) × Plan) : Prop := ∀ d ∈ s.1, d.2 ∈ s.2.targets

theorem safeNames_append {entries' : List RemoteEntry} :
  SafeNames components root (entries ++ entries')
    ↔ SafeNames components root entries ∧ SafeNames components root entries'
  := List.forall_mem_append

/-- What an entry adds to a plan: the place of a file or a directory. -/
theorem mem_targets_planEntry {s : List (String × LexicalPath) × Plan} {e : RemoteEntry}
    {t : LexicalPath} :
  t ∈ (planEntry components ldir s e).2.targets
    ↔ t ∈ s.2.targets ∨ (e.kind = .dir ∨ e.kind = .file) ∧ t = ldir.join (components e.name)
  := by
  cases hkind : e.kind with
  | dir =>
      simp only [planEntry, hkind, Plan.targets, List.mem_append, List.mem_singleton]
      tauto
  | file =>
      simp only [planEntry, hkind, Plan.targets, List.map_append, List.map_cons, List.map_nil,
        List.mem_append, List.mem_singleton]
      tauto
  | symlink => simp [planEntry, hkind]
  | other => simp [planEntry, hkind]

theorem queued_planEntry {s : List (String × LexicalPath) × Plan} (h : Queued s) (e : RemoteEntry) :
  Queued (planEntry components ldir s e)
  := by
  intro d hd
  rw [mem_targets_planEntry]
  cases hkind : e.kind with
  | dir =>
      rw [planEntry, hkind] at hd
      obtain rfl | hd := List.mem_cons.mp hd
      · exact .inr ⟨.inl rfl, rfl⟩
      · exact .inl (h d hd)
  | file =>
      rw [planEntry, hkind] at hd
      exact .inl (h d hd)
  | symlink =>
      rw [planEntry, hkind] at hd
      exact .inl (h d hd)
  | other =>
      rw [planEntry, hkind] at hd
      exact .inl (h d hd)

theorem queued_foldl {s : List (String × LexicalPath) × Plan} (h : Queued s) :
  Queued (entries.foldl (planEntry components ldir) s)
  := by
  induction entries generalizing s with
  | nil => exact h
  | cons e entries ih => exact ih (queued_planEntry h e)

/-- The directories to list after a listing. -/
theorem stack_foldl (s : List (String × LexicalPath) × Plan) :
  ((entries.foldl (planEntry components ldir) s).1).map Prod.fst
    = ((entries.filter (fun e => decide (e.kind = .dir))).map RemoteEntry.path).reverse
      ++ s.1.map Prod.fst
  := by
  induction entries generalizing s with
  | nil => rfl
  | cons e entries ih =>
      rw [List.foldl_cons, ih]
      cases hkind : e.kind with
      | dir => simp [planEntry, hkind]
      | file => simp [planEntry, hkind]
      | symlink => simp [planEntry, hkind]
      | other => simp [planEntry, hkind]

/-- A listing planned stays inside exactly when its names are safe. -/
theorem inside_foldl (s : List (String × LexicalPath) × Plan) (hldir : root.Inside ldir) :
  (entries.foldl (planEntry components ldir) s).2.Inside root
    ↔ s.2.Inside root ∧ SafeNames components root entries
  := by
  induction entries generalizing s with
  | nil => simp [SafeNames]
  | cons e entries ih =>
      have hentry : (planEntry components ldir s e).2.Inside root
          ↔ s.2.Inside root ∧ (e.kind = .dir ∨ e.kind = .file → root.Safe (components e.name)) := by
        rw [← LexicalPath.inside_join_iff hldir]
        constructor
        · intro h
          refine ⟨fun t ht => ?_, fun hkind => ?_⟩
          · exact h t (mem_targets_planEntry.mpr (.inl ht))
          · exact h _ (mem_targets_planEntry.mpr (.inr ⟨hkind, rfl⟩))
        · rintro ⟨hplan, hjoin⟩ t ht
          obtain ht | ⟨hkind, rfl⟩ := mem_targets_planEntry.mp ht
          · exact hplan t ht
          · exact hjoin hkind
      rw [List.foldl_cons, ih, hentry, and_assoc]
      simp only [SafeNames, List.forall_mem_cons]

/-- No entry planned takes a path out of the plan. -/
theorem targets_subset_foldl (s : List (String × LexicalPath) × Plan) :
  s.2.targets ⊆ (entries.foldl (planEntry components ldir) s).2.targets
  := by
  induction entries generalizing s with
  | nil => exact fun _ h => h
  | cons e entries ih =>
      rw [List.foldl_cons]
      apply List.Subset.trans _ (ih _)
      intro t ht
      rw [mem_targets_planEntry]
      exact .inl ht

theorem targets_subset_planDirs {s : List (String × LexicalPath) × Plan}
    (h : planDirs fs components answers s = some plan) :
  s.2.targets ⊆ plan.targets
  := by
  induction answers generalizing s with
  | nil =>
      obtain ⟨_ | ⟨d, stack⟩, plan'⟩ := s
      · cases h
        exact fun _ h => h
      · cases h
  | cons answer answers ih =>
      obtain ⟨_ | ⟨⟨rdir, ldir⟩, stack⟩, plan'⟩ := s
      · cases h
        exact fun _ h => h
      · obtain ⟨entries, -, h⟩ := Option.bind_eq_some_iff.mp h
        exact List.Subset.trans (targets_subset_foldl (stack, plan')) (ih h)

/-- Planning a stack of directories stays inside exactly when the plan so far is inside and the
names listed are safe. -/
theorem inside_planDirs_iff {s : List (String × LexicalPath) × Plan} (hqueued : Queued s)
    (h : planDirs fs components answers s = some plan) :
  plan.Inside root
    ↔ s.2.Inside root ∧ SafeNames components root (listedIn fs answers (s.1.map Prod.fst))
  := by
  induction answers generalizing s with
  | nil =>
      obtain ⟨_ | ⟨d, stack⟩, plan'⟩ := s
      · cases h
        simp [listedIn, SafeNames]
      · cases h
  | cons answer answers ih =>
      obtain ⟨_ | ⟨⟨rdir, ldir⟩, stack⟩, plan'⟩ := s
      · cases h
        simp [listedIn, SafeNames]
      · -- A plan that is outside before a listing is outside after it.
        by_cases hinside : plan'.Inside root
        · obtain ⟨entries, hlist, h⟩ := Option.bind_eq_some_iff.mp h
          have hldir : root.Inside ldir := hinside ldir (hqueued (rdir, ldir) List.mem_cons_self)
          have hqueued' : Queued (entries.foldl (planEntry components ldir) (stack, plan')) := by
            apply queued_foldl
            exact fun d hd => hqueued d (List.mem_cons_of_mem _ hd)
          rw [ih hqueued' h, inside_foldl (stack, plan') hldir, stack_foldl, and_assoc]
          simp only [List.map_cons, listedIn, hlist, safeNames_append]
        · constructor
          · intro hplan
            exact absurd (fun t ht => hplan t (targets_subset_planDirs h ht)) hinside
          · rintro ⟨hplan, -⟩
            exact absurd hplan hinside

/-- A download planned stays inside its destination exactly when every file and directory in the
listings it reads has a name that is safe to join. -/
theorem inside_planDownload_iff (fs : RemoteFs) (components : String → LexicalPath)
    (stat : Option RemoteEntry) (answers : List fs.Answer) (remote : String)
    (target : LexicalPath) (plan : Plan)
    (h : planDownload fs components stat answers remote target = some plan) :
  (∀ t ∈ plan.targets, target.Inside t)
    ↔ SafeNames components target (listed fs stat answers remote)
  := by
  obtain ⟨entry, rfl, hplan⟩ := Option.bind_eq_some_iff.mp h
  change plan.Inside target ↔ _
  by_cases hdir : entry.kind = .dir
  · rw [if_neg (not_not_intro hdir)] at hplan
    have hqueued : Queued ([(remote, target)], ⟨[target], [], some 0⟩) := by
      intro d hd
      rw [List.mem_singleton.mp hd]
      exact List.mem_singleton_self _
    rw [inside_planDirs_iff hqueued hplan]
    have hstart : Plan.Inside target ⟨[target], [], some 0⟩ := by
      intro t ht
      rw [List.mem_singleton.mp ht]
      exact LexicalPath.inside_self
    simp [listed, hdir, hstart]
  · rw [if_pos hdir] at hplan
    cases hplan
    simp [Plan.Inside, Plan.targets, listed, hdir, SafeNames, LexicalPath.inside_self]

end

/-- A path of a Unix system, taken apart. -/
def unixComponents (p : String) : LexicalPath :=
  ⟨none, decide (p.toList.head? = some '/'),
    ((p.toList.splitOn '/').map String.ofList).filter (fun s => decide (¬ (s = "" ∨ s = ".")))⟩

/-- A name of one segment is safe below any directory, unless it is `..`. -/
theorem safe_unixComponents_iff {root : LexicalPath} {name : String} (h : '/' ∉ name.toList) :
  root.Safe (unixComponents name) ↔ name ≠ ".."
  := by
  have hrooted : name.toList.head? ≠ some '/' := fun hhead => h (List.mem_of_mem_head? hhead)
  rw [LexicalPath.Safe, unixComponents, List.splitOn_eq_singleton h]
  by_cases hname : name = "" ∨ name = "."
  · obtain rfl | rfl := hname
    · simp
    · simp
  · simp only [hname, hrooted, List.map_cons, List.map_nil, String.ofList_toList, not_false_eq_true,
      decide_true, decide_false, List.filter_cons_of_pos, List.filter_nil, Option.isSome_none,
      Bool.false_eq_true, if_false, List.mem_singleton]
    exact not_congr eq_comm

/-- Over WebDAV, on a Unix system, a listing is safe exactly when no name in it is `..`. -/
theorem safeNames_webDav_iff {lower : String → String} {d : WebDav}
    {answer : Option (List DavResponse)} {dir : String} {entries : List RemoteEntry}
    {root : LexicalPath} (h : d.list lower answer dir = some entries) :
  SafeNames unixComponents root entries
    ↔ ∀ e ∈ entries, e.kind = .dir ∨ e.kind = .file → e.name ≠ ".."
  := by
  apply forall₂_congr
  intro e he
  rw [safe_unixComponents_iff (WebDav.slash_not_mem_name h he)]

/-- An SFTP server that lists one file. -/
def listsOne (name : String) : SftpAnswer := ⟨some "/srv", some [(name, .file, some 1)]⟩

theorem inside_planDownload_iff_plain :
  ∃ plan : Plan,
    planDownload (Sftp id) unixComponents (some ⟨"srv", "/srv", .dir, none⟩) [listsOne "x"] "/srv"
        (unixComponents "/home/me/srv") = some plan
      ∧ ∀ t ∈ plan.targets, (unixComponents "/home/me/srv").Inside t
  := by
  refine ⟨⟨[⟨none, true, ["home", "me", "srv"]⟩],
    [⟨⟨none, true, ["home", "me", "srv", "x"]⟩, "/srv/x", some 1⟩], some 1⟩, by decide +kernel, ?_⟩
  apply (inside_planDownload_iff (Sftp id) unixComponents (some ⟨"srv", "/srv", .dir, none⟩)
    [listsOne "x"] "/srv" (unixComponents "/home/me/srv") _ (by decide +kernel)).mpr
  intro e he _
  have hlisted : listed (Sftp id) (some ⟨"srv", "/srv", .dir, none⟩) [listsOne "x"] "/srv"
      = [⟨"x", "/srv/x", .file, some 1⟩] := by decide +kernel
  rw [hlisted, List.mem_singleton] at he
  rw [he, safe_unixComponents_iff (by decide)]
  decide

/-- A file named `../x` is written beside the destination. -/
theorem planDownload_not_inside :
  ¬ ∀ (stat : Option RemoteEntry) (answers : List SftpAnswer) (remote : String)
      (target : LexicalPath) (plan : Plan),
    planDownload (Sftp id) unixComponents stat answers remote target = some plan →
      ∀ t ∈ plan.targets, target.Inside t
  := by
  intro h
  have hplan : planDownload (Sftp id) unixComponents (some ⟨"srv", "/srv", .dir, none⟩)
      [listsOne "../x"] "/srv" (unixComponents "/home/me/srv")
        = some ⟨[⟨none, true, ["home", "me", "srv"]⟩],
          [⟨⟨none, true, ["home", "me", "srv", "..", "x"]⟩, "/srv/../x", some 1⟩], some 1⟩ := by
    decide +kernel
  obtain ⟨-, -, rest, hrest, hup⟩ := h _ _ _ _ _ hplan
    ⟨none, true, ["home", "me", "srv", "..", "x"]⟩ (by decide)
  have hunix : (unixComponents "/home/me/srv").segments = ["home", "me", "srv"] := by
    decide +kernel
  rw [hunix] at hrest
  rw [← @List.append_cancel_left _ ["home", "me", "srv"] ["..", "x"] rest hrest] at hup
  exact hup List.mem_cons_self

end Termoso.Desktop
