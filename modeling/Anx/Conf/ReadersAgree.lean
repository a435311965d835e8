import Mathlib.Data.List.Perm.Subperm
import Anx.Conf.ConfFile

/-!
# The two configuration readers agree, or not

- `paramsRead_content`: what the command line reads of a configuration file;
- `Agreeable`: what both readers need of it;
- `kept_of_agree`, `paramsRead_kept`, `agree_kept_iff`: if both agree, or if the file is
  agreeable, every assignment is kept, and then the values decide;
- `readers_agree_iff`: **both read the same exactly when** keys are short, values have no
  `=`, no assignment follows a comment that ends with a backslash, the last line is ended,
  and an assigned `OPTLST` lists what comes after it.
-/

namespace Anx.Conf

open Anx.Lib ParamUtils Anx.Conf.Cli

/-! ## What the command line reads -/

section

variable {sh : Shell} {optlst : Text}

/-- The variables before `params_read`. -/
def initVars (optlst : Text) : Vars := ⟨.ofList [(OPTLST, optlst)], []⟩

/-- **What the command line reads**: the assignments it keeps. -/
theorem paramsRead_content (hsh : sh.Expands) {lines : List ConfLine} {last : Option ConfLine}
    (h : ∀ line ∈ lines ++ last.toList, line.WellFormed) :
    paramsRead sh optlst (content lines last) =
      (evalAll sh (initVars optlst) (kept false (lines.map ConfLine.dropNul))).map fun vars =>
        vars.env.filter fun key _ => key ∈ vars.assigned := by
  have hlines : ∀ line ∈ lines.map ConfLine.dropNul, line.WellFormed := by
    intro line hline
    obtain ⟨line', hline', rfl⟩ := List.mem_map.mp hline
    exact ConfLine.wellFormed_dropNul (h line' (List.mem_append_left _ hline'))
  have htail : '\n' ∉ ((last.map ConfLine.dropNul).map ConfLine.text).getD [] := by
    cases last with
    | none => exact List.not_mem_nil
    | some line =>
      have hwf := ConfLine.wellFormed_dropNul (h line (by simp))
      exact fun hc => (ConfLine.text_noBreak hwf _ hc).1 rfl
  rw [paramsRead, readAllWith, dropNul_content h]
  exact congrArg _ (loop_content hsh hlines htail false [] rfl (initVars optlst))

/-- Names that are neither cut nor special are all assigned. -/
theorem evalAll_eq (hsh : sh.Expands) {entries : List (Text × Text)}
    (h : ∀ entry ∈ entries, IsName entry.1 ∧ IsLiteral entry.2)
    (hshort : ∀ entry ∈ entries, entry.1.length ≤ 32)
    (hspecial : ∀ entry ∈ entries, sh.special entry.1 = false) (vars : Vars) :
    evalAll sh vars entries = some (vars.assignAll entries) := by
  induction entries generalizing vars with
  | nil => rfl
  | cons entry entries ih =>
    obtain ⟨hname, hlit⟩ := h entry List.mem_cons_self
    have hlen := hshort entry List.mem_cons_self
    have hbody : body sh vars (writePair entry.1 entry.2) = some (vars.assign entry.1 entry.2) := by
      rw [body_assignment hsh hname hlit, evalValue, if_pos hlen, List.take_of_length_le hlen,
        hspecial entry List.mem_cons_self]
      rfl
    rw [evalAll, List.foldlM_cons, hbody]
    exact ih (fun e he => h e (List.mem_cons_of_mem _ he))
      (fun e he => hshort e (List.mem_cons_of_mem _ he))
      (fun e he => hspecial e (List.mem_cons_of_mem _ he)) _

/-- Whatever is assigned is one of the keys, cut after 32 characters. -/
theorem evalAll_assigned (hsh : sh.Expands) {entries : List (Text × Text)}
    (h : ∀ entry ∈ entries, IsName entry.1 ∧ IsLiteral entry.2) {vars vars' : Vars}
    (heval : evalAll sh vars entries = some vars') {key : Text} (hkey : key ∈ vars'.assigned) :
    key ∈ vars.assigned ∨ ∃ entry ∈ entries, key = entry.1.take 32 := by
  induction entries generalizing vars with
  | nil =>
    cases heval
    exact .inl hkey
  | cons entry entries ih =>
    obtain ⟨hname, hlit⟩ := h entry List.mem_cons_self
    rw [evalAll, List.foldlM_cons, body_assignment hsh hname hlit] at heval
    by_cases hspecial : sh.special (entry.1.take 32) = true
    · rw [if_pos hspecial] at heval
      cases heval
    · rw [if_neg hspecial] at heval
      rcases ih (fun e he => h e (List.mem_cons_of_mem _ he)) heval with hold | ⟨e, he, rfl⟩
      · have hstep : (vars.assign (entry.1.take 32) (evalValue entry.1 entry.2)).assigned =
            entry.1.take 32 :: vars.assigned := Vars.addOption_assigned _ _
        rw [hstep] at hold
        rcases List.mem_cons.mp hold with rfl | hold
        · exact .inr ⟨entry, List.mem_cons_self, rfl⟩
        · exact .inl hold
      · exact .inr ⟨e, List.mem_cons_of_mem _ he, rfl⟩

end

/-! ## Agreement -/

/-- What both readers need of a file to read the same. -/
structure Agreeable (lines : List ConfLine) (last : Option ConfLine) : Prop where
  /-- Keys have up to 32 characters. -/
  short : ∀ entry ∈ assignments (lines ++ last.toList), entry.1.length ≤ 32
  /-- Values have no `=` and no NUL character. -/
  plain : ∀ entry ∈ assignments (lines ++ last.toList), '=' ∉ entry.2 ∧ '\x00' ∉ entry.2
  /-- No assignment follows a comment that goes on. -/
  separate : (lines.map ConfLine.dropNul).IsChain ConfLine.Separate
  /-- An assignment in the last line is ended by a newline. -/
  ended : assignments last.toList = []
  /-- If the file assigns `OPTLST`, to nothing or to a list of the names from there on. -/
  options : ∀ pre value post, assignments lines = pre ++ (OPTLST, value) :: post →
    value = [] ∨ ∀ name ∈ OPTLST :: post.map Prod.fst, (' ' :: (name ++ [' '])) <:+: value

theorem assignments_dropNul (lines : List ConfLine) :
    assignments (lines.map ConfLine.dropNul) =
      (assignments lines).map fun entry => (entry.1, dropNul entry.2) := by
  induction lines with
  | nil => rfl
  | cons line lines ih =>
    cases line with
    | comment text => exact ih
    | empty => exact ih
    | assign key value => exact congrArg _ ih

/-- The assignments of well-formed lines. -/
theorem assignments_wellFormed {lines : List ConfLine} (h : ∀ line ∈ lines, line.WellFormed) :
    ∀ entry ∈ assignments lines, IsName entry.1 ∧ IsLiteral entry.2 := by
  intro entry hentry
  obtain ⟨line, hline, hassign⟩ := List.mem_filterMap.mp hentry
  cases line with
  | comment text => cases hassign
  | empty => cases hassign
  | assign key value =>
    cases hassign
    exact h _ hline

/-- The value of a variable that is read the same has no `=` and no NUL character. -/
theorem plain_of_foldl_eq {names : List Text} (hnames : ∀ name ∈ names, IsKey name) {value : Text}
    (h : names.foldl addOption (dropNul value) = beforeEq value) :
    '=' ∉ value ∧ '\x00' ∉ value := by
  have heq : '=' ∉ value := by
    intro hmem
    have hfold : '=' ∈ names.foldl addOption (dropNul value) :=
      (prefix_foldl_addOption names _).subset (List.mem_filter.mpr ⟨hmem, by decide⟩)
    rw [h] at hfold
    simpa using List.mem_takeWhile_imp hfold
  refine ⟨heq, fun hnul => ?_⟩
  rw [beforeEq_eq_self_iff.mpr heq] at h
  rw [← h] at hnul
  have hdropped := foldl_addOption_mem hnames hnul (by decide) (by decide)
  simpa using (List.mem_filter.mp hdropped).2

/-- The variables after all assignments of the file. -/
def assignDropped (optlst : Text) (lines : List ConfLine) : Vars :=
  (initVars optlst).assignAll (assignments (lines.map ConfLine.dropNul))

section

variable {sh : Shell} {optlst : Text} {lines : List ConfLine} {last : Option ConfLine}

/-- What the app has of a key that is assigned. -/
theorem getElem?_of_mem (hwf : WellFormed lines) {entry : Text × Text}
    (hentry : entry ∈ assignments lines) :
    ((∅ : ConfMap).insertMany ((assignments lines).map fun e => (e.1, beforeEq e.2)))[entry.1]? =
      some (beforeEq entry.2) := by
  apply Std.ExtTreeMap.getElem?_insertMany_list_of_mem Std.ReflCmp.compare_self
  · rw [List.pairwise_map]
    exact (List.pairwise_map.mp hwf.distinct).imp fun hne => by simpa using hne
  · exact List.mem_map.mpr ⟨entry, hentry, rfl⟩

/-- What the app has of a key that is not assigned. -/
theorem getElem?_of_not_mem {key : Text} (hkey : key ∉ (assignments lines).map Prod.fst) :
    ((∅ : ConfMap).insertMany ((assignments lines).map fun e => (e.1, beforeEq e.2)))[key]? =
      none := by
  rw [Std.ExtTreeMap.getElem?_insertMany_list_of_contains_eq_false,
    Std.ExtTreeMap.getElem?_empty]
  simpa [List.map_map, Function.comp_def] using hkey

/-- The keys that are kept are keys of the file. -/
theorem kept_keys_sublist (lines : List ConfLine) (last : Option ConfLine) :
    ((kept false (lines.map ConfLine.dropNul)).map Prod.fst).Sublist
      ((assignments (lines ++ last.toList)).map Prod.fst) := by
  have hkept := (kept_sublist false (lines.map ConfLine.dropNul)).map Prod.fst
  rw [assignments_dropNul, List.map_map] at hkept
  rw [assignments_append, List.map_append]
  exact hkept.trans (List.sublist_append_left _ _)

/-- A key that both readers read is kept and short. -/
theorem short_of_agree (hsh : sh.Expands) (hwf : WellFormed (lines ++ last.toList))
    (hagree : readConf (content lines last) = paramsRead sh optlst (content lines last))
    {entry : Text × Text} (hentry : entry ∈ assignments (lines ++ last.toList)) :
    entry.1.length ≤ 32 ∧
      ∃ kentry ∈ kept false (lines.map ConfLine.dropNul), entry.1 = kentry.1.take 32 := by
  rw [readConf_content hwf.line, paramsRead_content hsh hwf.line] at hagree
  obtain ⟨vars, heval, hmap⟩ := Option.map_eq_some_iff.mp hagree.symm
  -- the app has the key, so the command line has assigned it
  have hget := getElem?_of_mem hwf hentry
  rw [← hmap, Std.ExtTreeMap.getElem?_filter', Option.filter_eq_some_iff] at hget
  have hkept : ∀ e ∈ kept false (lines.map ConfLine.dropNul), IsName e.1 ∧ IsLiteral e.2 := by
    intro e he
    have hmem := (kept_sublist false _).subset he
    refine assignments_wellFormed (fun line hline => ?_) e hmem
    obtain ⟨line', hline', rfl⟩ := List.mem_map.mp hline
    exact ConfLine.wellFormed_dropNul (hwf.line line' (List.mem_append_left _ hline'))
  rcases evalAll_assigned hsh hkept heval (by simpa using hget.2) with hnil | ⟨e, he, hcut⟩
  · cases hnil
  · refine ⟨?_, e, he, hcut⟩
    rw [hcut]
    exact List.length_take_le _ _

/-- If both readers agree, every assignment of the file is kept. -/
theorem kept_of_agree (hsh : sh.Expands) (hwf : WellFormed (lines ++ last.toList))
    (hagree : readConf (content lines last) = paramsRead sh optlst (content lines last)) :
    assignments last.toList = [] ∧ kept false (lines.map ConfLine.dropNul) =
      assignments (lines.map ConfLine.dropNul) := by
  have hsub := kept_keys_sublist lines last
  have hkeys : (assignments (lines ++ last.toList)).map Prod.fst ⊆
      (kept false (lines.map ConfLine.dropNul)).map Prod.fst := by
    intro key hkey
    obtain ⟨entry, hentry, rfl⟩ := List.mem_map.mp hkey
    obtain ⟨-, e, he, hcut⟩ := short_of_agree hsh hwf hagree hentry
    -- the kept key is itself a key of the file, hence is not cut
    obtain ⟨entry', hentry', hkey'⟩ := List.mem_map.mp (hsub.subset (List.mem_map_of_mem he))
    have hlen := (short_of_agree hsh hwf hagree hentry').1
    rw [hkey'] at hlen
    rw [hcut, List.take_of_length_le hlen]
    exact List.mem_map_of_mem he
  -- the keys are distinct and all of them are kept, so the counts leave no room for others
  have hlen := (List.subperm_of_subset hwf.distinct hkeys).length_le
  have hkept := (kept_sublist false (lines.map ConfLine.dropNul)).length_le
  rw [assignments_append, List.map_append, List.length_append, List.length_map, List.length_map,
    List.length_map] at hlen
  have hsame : (assignments (lines.map ConfLine.dropNul)).length = (assignments lines).length := by
    rw [assignments_dropNul, List.length_map]
  constructor
  · exact List.length_eq_zero_iff.mp (by omega)
  · exact (kept_sublist false _).eq_of_length_le (by omega)

/-- What the command line reads when it keeps every assignment and cuts no key. -/
theorem paramsRead_kept (hsh : sh.Expands) (hlines : ∀ line ∈ lines ++ last.toList, line.WellFormed)
    (hspecial : ∀ entry ∈ assignments lines, sh.special entry.1 = false)
    (hshort : ∀ entry ∈ assignments lines, entry.1.length ≤ 32)
    (hkept : kept false (lines.map ConfLine.dropNul) = assignments (lines.map ConfLine.dropNul)) :
    paramsRead sh optlst (content lines last) =
      some ((assignDropped optlst lines).env.filter
        fun key _ => key ∈ (assignments lines).map Prod.fst) := by
  have hentries : ∀ entry ∈ assignments (lines.map ConfLine.dropNul),
      ∃ value, (entry.1, value) ∈ assignments lines := by
    intro entry hentry
    rw [assignments_dropNul] at hentry
    obtain ⟨e, he, rfl⟩ := List.mem_map.mp hentry
    exact ⟨e.2, he⟩
  have hwf : ∀ entry ∈ assignments (lines.map ConfLine.dropNul),
      IsName entry.1 ∧ IsLiteral entry.2 := by
    refine assignments_wellFormed fun line hline => ?_
    obtain ⟨line', hline', rfl⟩ := List.mem_map.mp hline
    exact ConfLine.wellFormed_dropNul (hlines line' (List.mem_append_left _ hline'))
  have heval : evalAll sh (initVars optlst) _ = _ := evalAll_eq hsh hwf
    (fun entry hentry => (hentries entry hentry).elim fun value hmem =>
      hshort (entry.1, value) hmem)
    (fun entry hentry => (hentries entry hentry).elim fun value hmem =>
      hspecial (entry.1, value) hmem)
    (initVars optlst)
  have hassigned : ∀ key : Text, key ∈ (assignDropped optlst lines).assigned ↔
      key ∈ (assignments lines).map Prod.fst := by
    intro key
    rw [assignDropped, Vars.assignAll_assigned, assignments_dropNul, List.map_map]
    simp [initVars, Function.comp_def]
  rw [paramsRead_content hsh hlines, hkept, heval, Option.map_some]
  congr 2
  funext key _
  exact decide_eq_decide.mpr (hassigned key)

/-- The names that are appended to the value of a variable. -/
def appended (key : Text) (post : List (Text × Text)) : List Text :=
  if key = OPTLST then key :: post.map Prod.fst else []

/-- **What is in a variable** after all assignments. -/
theorem assignDropped_env (hdistinct : ((assignments lines).map Prod.fst).Nodup)
    {pre post : List (Text × Text)} {key value : Text}
    (hentries : assignments lines = pre ++ (key, value) :: post) :
    (assignDropped optlst lines).env[key]? =
      some ((appended key post).foldl addOption (dropNul value)) := by
  have hdropped : assignments (lines.map ConfLine.dropNul) =
      pre.map (fun entry => (entry.1, dropNul entry.2)) ++ (key, dropNul value) ::
        post.map fun entry => (entry.1, dropNul entry.2) := by
    rw [assignments_dropNul, hentries, List.map_append, List.map_cons]
  have hnodup : ((assignments (lines.map ConfLine.dropNul)).map Prod.fst).Nodup := by
    rw [assignments_dropNul, List.map_map]
    exact hdistinct
  rw [assignDropped, appended]
  by_cases hkey : key = OPTLST
  · subst hkey
    have hpost : OPTLST ∉ (post.map fun entry => (entry.1, dropNul entry.2)).map Prod.fst := by
      rw [hdropped, List.map_append, List.map_cons, List.nodup_append, List.nodup_cons] at hnodup
      exact hnodup.2.1.1
    have hopt :
        ((initVars optlst).assignAll (assignments (lines.map ConfLine.dropNul))).HasOptlst _ :=
      Vars.assignAll_optlst_assigned hdropped hpost
    rw [if_pos rfl, hopt, List.map_map]
    rfl
  · rw [if_neg hkey, Vars.assignAll_value hnodup
      (hdropped ▸ List.mem_append_right _ List.mem_cons_self) hkey]
    rfl

/-- The names that are appended are keys. -/
theorem appended_isKey (hlines : ∀ line ∈ lines, line.WellFormed) {pre post : List (Text × Text)}
    {key value : Text} (hentries : assignments lines = pre ++ (key, value) :: post) :
    ∀ name ∈ appended key post, IsKey name := by
  intro name hname
  have hmem : name ∈ (assignments lines).map Prod.fst := by
    rw [appended] at hname
    split at hname
    · rw [hentries, List.map_append, List.map_cons]
      exact List.mem_append_right _ hname
    · cases hname
  obtain ⟨entry, hentry, rfl⟩ := List.mem_map.mp hmem
  exact (assignments_wellFormed hlines entry hentry).1.1

/-- The values are the same exactly when they are plain and nothing is appended to them. -/
theorem foldl_appended_eq_iff {names : List Text} (hnames : ∀ name ∈ names, IsKey name)
    (value : Text) : names.foldl addOption (dropNul value) = beforeEq value ↔
      ('=' ∉ value ∧ '\x00' ∉ value) ∧
        (value = [] ∨ ∀ name ∈ names, (' ' :: (name ++ [' '])) <:+: value) := by
  constructor
  · intro h
    obtain ⟨heq, hnul⟩ := plain_of_foldl_eq hnames h
    rw [dropNul_eq_self hnul, beforeEq_eq_self_iff.mpr heq, foldl_addOption_eq_iff] at h
    exact ⟨⟨heq, hnul⟩, h⟩
  · rintro ⟨⟨heq, hnul⟩, hlist⟩
    rw [dropNul_eq_self hnul, beforeEq_eq_self_iff.mpr heq, foldl_addOption_eq_iff]
    exact hlist

/-- When the command line reads every assignment, both readers agree exactly when the
variables have the values of the app. -/
theorem agree_kept_iff (hsh : sh.Expands) (hwf : WellFormed lines)
    (hlines : ∀ line ∈ lines ++ last.toList, line.WellFormed)
    (hspecial : ∀ entry ∈ assignments lines, sh.special entry.1 = false)
    (hshort : ∀ entry ∈ assignments lines, entry.1.length ≤ 32)
    (hkept : kept false (lines.map ConfLine.dropNul) = assignments (lines.map ConfLine.dropNul))
    (hended : assignments last.toList = []) :
    readConf (content lines last) = paramsRead sh optlst (content lines last) ↔
      ∀ pre key value post, assignments lines = pre ++ (key, value) :: post →
        (appended key post).foldl addOption (dropNul value) = beforeEq value := by
  rw [readConf_content hlines, paramsRead_kept hsh hlines hspecial hshort hkept,
    assignments_append, hended, List.append_nil, Option.some_inj]
  constructor
  · intro hmap pre key value post hentries
    have hmem : (key, value) ∈ assignments lines := by simp [hentries]
    have hget := getElem?_of_mem hwf hmem
    rw [hmap, Std.ExtTreeMap.getElem?_filter', Option.filter_eq_some_iff,
      assignDropped_env hwf.distinct hentries] at hget
    exact Option.some.inj hget.1
  · intro hvalues
    apply Std.ExtTreeMap.ext_getElem?
    intro key
    rw [Std.ExtTreeMap.getElem?_filter']
    by_cases hkey : key ∈ (assignments lines).map Prod.fst
    · obtain ⟨entry, hentry, rfl⟩ := List.mem_map.mp hkey
      obtain ⟨pre, post, hentries⟩ := List.append_of_mem hentry
      rw [getElem?_of_mem hwf hentry, assignDropped_env hwf.distinct hentries,
        hvalues pre entry.1 entry.2 post hentries, Option.filter_some, if_pos (by simpa using hkey)]
    · rw [getElem?_of_not_mem hkey, eq_comm, Option.filter_eq_none_iff]
      exact fun _ _ => by simpa using hkey

/-- **Both readers read the same** exactly when the file is agreeable. -/
theorem readers_agree_iff (sh : Shell) (hsh : sh.Expands) (optlst : Text) (lines : List ConfLine)
    (last : Option ConfLine) (hwf : WellFormed (lines ++ last.toList))
    (hspecial : ∀ entry ∈ assignments (lines ++ last.toList), sh.special entry.1 = false) :
    readConf (content lines last) = paramsRead sh optlst (content lines last) ↔
      Agreeable lines last := by
  have hlines : WellFormed lines := hwf.lines
  have hkept_iff :
      kept false (lines.map ConfLine.dropNul) = assignments (lines.map ConfLine.dropNul) ↔
      (lines.map ConfLine.dropNul).IsChain ConfLine.Separate := by simp [kept_eq_iff]
  have hsub : assignments lines ⊆ assignments (lines ++ last.toList) := by
    rw [assignments_append]
    exact List.subset_append_left _ _
  have hspecial' := fun entry hentry => hspecial entry (hsub hentry)
  constructor
  · intro hagree
    -- first that all assignments are kept and no key is cut, then the values
    obtain ⟨hended, hkept⟩ := kept_of_agree hsh hwf hagree
    have hassign : assignments (lines ++ last.toList) = assignments lines := by
      rw [assignments_append, hended, List.append_nil]
    have hshort : ∀ entry ∈ assignments (lines ++ last.toList), entry.1.length ≤ 32 :=
      fun entry hentry => (short_of_agree hsh hwf hagree hentry).1
    have hvalues := (agree_kept_iff hsh hlines hwf.line hspecial'
      (fun entry hentry => hshort entry (hsub hentry)) hkept hended).mp hagree
    have hplain := fun pre key value post hentries =>
      (foldl_appended_eq_iff (appended_isKey hlines.line hentries) value).mp
        (hvalues pre key value post hentries)
    refine ⟨hshort, ?_, hkept_iff.mp hkept, hended, fun pre value post hentries =>
      (hplain pre OPTLST value post hentries).2⟩
    intro entry hentry
    rw [hassign] at hentry
    obtain ⟨pre, post, hentries⟩ := List.append_of_mem hentry
    exact (hplain pre entry.1 entry.2 post hentries).1
  · rintro ⟨hshort, hplain, hseparate, hended, hoptions⟩
    refine (agree_kept_iff hsh hlines hwf.line hspecial'
      (fun entry hentry => hshort entry (hsub hentry)) (hkept_iff.mpr hseparate) hended).mpr ?_
    intro pre key value post hentries
    have hmem : (key, value) ∈ assignments lines := by simp [hentries]
    refine (foldl_appended_eq_iff (appended_isKey hlines.line hentries) value).mpr
      ⟨hplain _ (hsub hmem), ?_⟩
    by_cases hkey : key = OPTLST
    · subst hkey
      exact hoptions pre value post hentries
    · rw [appended, if_neg hkey]
      exact .inr fun _ hname => (nomatch hname)

end

/-- A shell in a directory without matching files. -/
def literalShell : Shell := ⟨fun word => [word], fun name => name ∈ ["IFS".toList, "PATH".toList]⟩

theorem literalShell_expands : literalShell.Expands := by
  intro word hword
  refine ⟨List.cons_ne_nil _ _, fun name hname => ?_⟩
  rw [List.mem_singleton.mp hname]
  exact ⟨List.takeWhile_prefix _, hword⟩

/-- A file on which both readers agree. -/
theorem readers_agree_plain :
    readConf (content [.comment " anx".toList, .empty, .assign "DNS".toList "8.8.8.8 # 1".toList] none)
      = paramsRead literalShell [' ']
        (content [.comment " anx".toList, .empty, .assign "DNS".toList "8.8.8.8 # 1".toList] none) := by
  refine (readers_agree_iff literalShell literalShell_expands [' '] _ none
    ⟨by decide, by decide⟩ (by decide)).mpr ⟨by decide, by decide, by decide, rfl, ?_⟩
  intro pre value post hentries
  have hmem : (OPTLST, value) ∈ pre ++ (OPTLST, value) :: post :=
    List.mem_append_right _ List.mem_cons_self
  rw [← hentries] at hmem
  have hkey : OPTLST = "DNS".toList := congrArg Prod.fst (List.mem_singleton.mp hmem)
  exact absurd hkey (by decide)

/-- The app reads `a`, the command line `a=b`. -/
theorem readers_agree_fails :
    ¬ ∀ (sh : Shell), sh.Expands → ∀ (optlst : Text) (lines : List ConfLine)
      (last : Option ConfLine), WellFormed (lines ++ last.toList) →
      (∀ entry ∈ assignments (lines ++ last.toList), sh.special entry.1 = false) →
      readConf (content lines last) = paramsRead sh optlst (content lines last) := by
  intro h
  have hwf : WellFormed ([.assign "MOUNTS".toList "a=b".toList] ++ (none : Option ConfLine).toList) :=
    ⟨by decide, by decide⟩
  have hagree := h literalShell literalShell_expands [' '] _ none hwf (by decide)
  rw [agree_kept_iff literalShell_expands hwf.lines hwf.line (by decide) (by decide) (by decide)
    rfl] at hagree
  exact absurd (hagree [] "MOUNTS".toList "a=b".toList [] rfl) (by decide)

end Anx.Conf
