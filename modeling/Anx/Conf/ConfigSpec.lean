import Anx.Conf.Settings
import Anx.Conf.ReadersAgree

/-!
# What `config` does to settings

- `PlainSetting`, `PlainParams`, `Holds`: names and values that are read as they are meant, and
  a file of them;
- `Holds.readConf`: **the app reads what a file holds**;
- `paramsReadIn_content`, `parseAllIn_plain`, `paramsWrite_settings`: **one lemma for each of the
  functions** of the script, which expands values;
- `Leaves`: what their assignments leave in the variables.
-/

namespace Anx.Conf

open Anx.Lib ParamUtils Anx.Conf.Cli

/-- The settings of lines. -/
def settingsOf (lines : List ConfLine) : Settings := .ofEntries (assignments lines)

namespace Cli

/-! ## Plain settings -/

/-- A setting that is read as it is meant: the name is none of the script's own or of those that
values use; the app reads the value, and the script what it is expanded to. -/
structure PlainSetting (S : Script) (key value : Text) : Prop where
  name : IsName key
  short : key.length ≤ 32
  ordinary : S.sh.special key = false
  other : key ∉ own ∧ key ∉ S.used
  setting : IsSetting value ∧ '=' ∉ value ∧ '\x00' ∉ value
  steady : S.Steady value
  expanded : IsLiteral (S.expand value) ∧ '=' ∉ S.expand value ∧ '\x00' ∉ S.expand value

/-- Plain entries. -/
def PlainEntries (S : Script) (entries : List (Text × Text)) : Prop :=
  ∀ entry ∈ entries, PlainSetting S entry.1 entry.2

/-- Parameters: options for plain settings, which the shell passes on as they are, and
arguments that do not begin like options. -/
structure PlainParams (S : Script) (params : List Text) : Prop where
  others : ∀ item ∈ params, asOption item = none → optionHead item = []
  plain : PlainEntries S (options params)
  words : ∀ option ∈ options params, NoPattern (writePair option.1 option.2) ∧
    [' '].intercalate (pieces isIFS (writePair option.1 option.2)) = writePair option.1 option.2

/-- A line of a plain setting, or without one. -/
def PlainLine (S : Script) : ConfLine → Prop
  | .comment text => NoBreak text ∧ '\\' ∉ text ∧ '\x00' ∉ text
  | .empty => True
  | .assign key value => PlainSetting S key value

/-- The file holds these settings. -/
def Holds (S : Script) (file : Text) (settings : Settings) : Prop :=
  ∃ lines, (∀ line ∈ lines, PlainLine S line) ∧ file = content lines none ∧
    settings = settingsOf lines

/-- The entries with their values expanded. -/
def Script.expandAll (S : Script) (entries : List (Text × Text)) : List (Text × Text) :=
  entries.map fun entry => (entry.1, S.expand entry.2)

section

variable {S : Script} {frame : Locals} {vars : Vars} {lines : List ConfLine}
  {entries entries' : List (Text × Text)} {key value : Text}

theorem isSetting_of_isLiteral (h : IsLiteral value) : IsSetting value :=
  ⟨h.1, fun c hc => fun hmem => h.2 c hc (by
    simp only [List.mem_cons, List.not_mem_nil, or_false] at hmem ⊢
    tauto)⟩

/-- A setting without variables. -/
theorem plain_of_literal (hname : IsName key) (hshort : key.length ≤ 32)
    (hordinary : S.sh.special key = false) (hother : key ∉ own ∧ key ∉ S.used)
    (hliteral : IsLiteral value) (hplain : '=' ∉ value ∧ '\x00' ∉ value) :
    PlainSetting S key value where
  name := hname
  short := hshort
  ordinary := hordinary
  other := hother
  setting := ⟨isSetting_of_isLiteral hliteral, hplain⟩
  steady := Script.steady_literal hliteral
  expanded := (Script.expand_literal hliteral).symm ▸ ⟨hliteral, hplain⟩

/-- What a setting is expanded to is a plain value, too. -/
theorem PlainSetting.expand (h : PlainSetting S key value) : PlainSetting S key (S.expand value) :=
  plain_of_literal h.name h.short h.ordinary h.other h.expanded.1 h.expanded.2

theorem PlainSetting.isVariable (h : PlainSetting S key value) :
    isVariable S.sh.toShell key = true := isVariable_of_name h.name h.short h.ordinary

theorem PlainSetting.ne (h : PlainSetting S key value) {name : Text} (hname : name ∈ own) :
    key ≠ name := fun heq => h.other.1 (heq ▸ hname)

theorem Script.expandAll_append (entries entries' : List (Text × Text)) :
    S.expandAll (entries ++ entries') = S.expandAll entries ++ S.expandAll entries' :=
  List.map_append

theorem PlainEntries.append (h : PlainEntries S entries) (h' : PlainEntries S entries') :
    PlainEntries S (entries ++ entries') :=
  fun entry hentry => (List.mem_append.mp hentry).elim (h entry) (h' entry)

theorem PlainEntries.expandAll (h : PlainEntries S entries) :
    PlainEntries S (S.expandAll entries) := by
  intro entry hentry
  obtain ⟨entry', hentry', rfl⟩ := List.mem_map.mp hentry
  exact (h entry' hentry').expand

theorem PlainEntries.names (h : PlainEntries S entries) (hkey : key ∈ entries.map Prod.fst) :
    IsName key ∧ key ∉ own ∧ key ∉ S.used := by
  obtain ⟨entry, hentry, rfl⟩ := List.mem_map.mp hkey
  exact ⟨(h entry hentry).name, (h entry hentry).other⟩

theorem plain_assignments (h : ∀ line ∈ lines, PlainLine S line) :
    PlainEntries S (assignments lines) := by
  intro entry hentry
  obtain ⟨line, hline, hassign⟩ := List.mem_filterMap.mp hentry
  cases line with
  | comment text => cases hassign
  | empty => cases hassign
  | assign key value =>
    cases hassign
    exact h _ hline

/-- A setting that a file holds is plain. -/
theorem Holds.plain {file : Text} {settings : Settings} (h : Holds S file settings)
    (hget : settings key = some value) : PlainSetting S key value := by
  obtain ⟨lines, hlines, -, rfl⟩ := h
  exact plain_assignments hlines _ (Settings.mem_of_ofEntries hget)

/-! ## Reading -/

/-- What no plain line has. -/
theorem PlainLine.text {line : ConfLine} (h : PlainLine S line) :
    NoBreak line.text ∧ '\\' ∉ line.text ∧ '\x00' ∉ line.text := by
  cases line with
  | comment text =>
    obtain ⟨hbreak, hslash, hnul⟩ := h
    refine ⟨fun c hc => ?_, fun hc => hslash ((List.mem_cons.mp hc).resolve_left (by decide)),
      fun hc => hnul ((List.mem_cons.mp hc).resolve_left (by decide))⟩
    rcases List.mem_cons.mp hc with rfl | hc
    · decide
    · exact hbreak c hc
  | empty => exact ⟨fun _ hc => absurd hc List.not_mem_nil, List.not_mem_nil, List.not_mem_nil⟩
  | assign key value =>
    refine ⟨writePair_noBreak h.name.1 h.setting.1.1,
      backslash_not_mem_writePair h.name h.setting.1, ?_⟩
    have hkey : '\x00' ∉ key := fun hc => h.name.1.ne hc (d := '\x00') (by decide) rfl
    show '\x00' ∉ writePair key value
    simp [writePair, hkey, h.setting.2.2]

/-- **The app** reads the settings that a file holds. -/
theorem Holds.readConf {file : Text} {settings : Settings} (h : Holds S file settings) :
    ∃ map, readConf file = some map ∧ ∀ key, map[key]? = settings key := by
  obtain ⟨lines, hlines, rfl, rfl⟩ := h
  have hread : ∀ map : ConfMap, (lines.map ConfLine.text).foldlM readLine map =
      some (map.insertMany (assignments lines)) := by
    intro map
    induction lines generalizing map with
    | nil => rfl
    | cons line lines ih =>
      obtain ⟨hline, hrest⟩ := List.forall_mem_cons.mp hlines
      cases line with
      | comment text => exact ih hrest map
      | empty => exact ih hrest map
      | assign key value =>
        have hpair : readLine map (ConfLine.assign key value).text = some (map.insert key value) := by
          have hself := readLine_writePair hline.name.1 hline.setting.1.1 map
          rwa [beforeEq_eq_self_iff.mpr hline.setting.2.1] at hself
        have hcons : assignments (.assign key value :: lines) = (key, value) :: assignments lines :=
          rfl
        rw [List.map_cons, List.foldlM_cons, hpair, hcons, Std.ExtTreeMap.insertMany_cons]
        exact ih hrest _
  have hbreak : ∀ text ∈ lines.map ConfLine.text, NoBreak text := by
    intro text ht
    obtain ⟨line, hline, rfl⟩ := List.mem_map.mp ht
    exact (hlines line hline).text.1
  refine ⟨(∅ : ConfMap).insertMany (assignments lines), ?_, fun key => ?_⟩
  · rw [ParamUtils.readConf, content, Option.map_none, Option.getD_none, List.append_nil,
      readLines_unlines hbreak, hread]
  · rw [Settings.getElem?_insertMany, Std.ExtTreeMap.getElem?_empty, Option.or_none]
    rfl

/-- An expanded value is assigned. -/
theorem evalAssign_steady {locals : Locals} (h : PlainSetting S key value) (hvars : S.Agrees vars)
    (hlocals : S.Visible locals) :
    evalAssign S.sh vars locals key (writePair key value) = some (S.expand value) := by
  rw [evalAssign_writePair h.isVariable]
  exact h.steady vars locals hvars hlocals

/-- **The loop body** on a line. -/
theorem readBodyIn_line {line : ConfLine} (h : PlainLine S line) (hvars : S.Agrees vars)
    (hframe : S.Visible frame) :
    readBodyIn S.sh frame vars (readItem (line.text.map fun c => (c, false))) =
      some (vars.assignAll (S.expandAll line.assignment.toList)) := by
  cases line with
  | comment text =>
    obtain ⟨rest, hitem⟩ := @readItem_cons ('#', false) (by decide) (text.map fun c => (c, false))
    show readBodyIn S.sh frame vars (readItem (('#', false) :: text.map fun c => (c, false))) = _
    rw [hitem]
    exact readBodyWith_comment S.expands _ rest
  | empty => rfl
  | assign key value =>
    show readBodyIn S.sh frame vars (readItem ((writePair key value).map fun c => (c, false))) = _
    rw [readItem_writePair h.name, readBodyIn_writePair S.expands h.name h.short]
    have hassign : evalAssign S.sh vars ([("item".toList, writePair key value), ("key".toList, key),
        ("val".toList, '"' :: (value ++ ['"']))] ++ frame) key (writePair key value) = _ :=
      evalAssign_steady h hvars
        (((hframe.cons (.inr (by decide))).cons (.inr (by decide))).cons (.inr (by decide)))
    exact congrArg (Option.map fun value => vars.assign key value) hassign

theorem Script.Agrees.assignAll (hvars : S.Agrees vars) (h : PlainEntries S entries) :
    S.Agrees (vars.assignAll entries) := by
  intro name hused
  have hnone : entries.reverse.lookup name = none :=
    Settings.ofEntries_eq_none_iff.mpr fun hmem => (h.names hmem).2.2 hused
  have hopt : name ≠ OPTLST := fun heq => (S.separate name hused).1 (heq ▸ by decide)
  rw [Vars.assignAll_get _ _ hopt, hnone, Option.none_or, hvars name hused]

/-- **Reading a plain file** makes its assignments, with the values expanded. -/
theorem paramsReadIn_content (h : ∀ line ∈ lines, PlainLine S line) (hvars : S.Agrees vars)
    (hframe : S.Visible frame) : paramsReadIn S.sh frame vars (content lines none) =
      some (vars.assignAll (S.expandAll (assignments lines))) := by
  have htexts : ∀ text ∈ lines.map ConfLine.text,
      NoBreak text ∧ '\\' ∉ text ∧ '\x00' ∉ text := by
    intro text ht
    obtain ⟨line, hline, rfl⟩ := List.mem_map.mp ht
    exact (h line hline).text
  have hdrop : (lines.map ConfLine.text).map dropNul = lines.map ConfLine.text := by
    conv_rhs => rw [← List.map_id (lines.map ConfLine.text)]
    exact List.map_congr_left fun text ht => dropNul_eq_self (htexts text ht).2.2
  have hitems : items [] (dropNul (content lines none)) =
      lines.map fun line => line.text.map fun c => (c, false) := by
    rw [content, Option.map_none, Option.getD_none, List.append_nil, dropNul_unlines, hdrop,
      items_unlines fun text ht => ⟨fun hc => ((htexts text ht).1 _ hc).1 rfl,
        continued_plain (htexts text ht).2.1⟩, List.map_map]
    exact List.map_congr_left fun line hline => marks_plain (h line hline).text.2.1
  rw [paramsReadIn, readAllWith, hitems, List.foldlM_map]
  show lines.foldlM (fun vars line => readBodyIn S.sh frame vars (readItem
    (line.text.map fun c => (c, false)))) vars = _
  clear hitems hdrop htexts
  induction lines generalizing vars with
  | nil => rfl
  | cons line lines ih =>
    obtain ⟨hline, hrest⟩ := List.forall_mem_cons.mp h
    have hone : PlainEntries S (assignments [line]) := by
      refine plain_assignments fun line' hline' => ?_
      rw [List.mem_singleton.mp hline']
      exact hline
    have hassign : assignments [line] = line.assignment.toList := by cases line <;> rfl
    rw [List.foldlM_cons, readBodyIn_line hline hvars hframe]
    refine (ih hrest (hvars.assignAll (hassign ▸ hone.expandAll))).trans ?_
    cases line <;> rfl

/-! ## Parsing -/

/-- **Parsing plain parameters** makes the assignments of the options. -/
theorem parseAllIn_plain {params : List Text} (h : PlainParams S params) (hvars : S.Agrees vars)
    (hframe : S.Visible frame) (n : Nat) : parseAllIn S.sh frame n vars params =
      some (vars.assignAll (S.expandAll (options params)), n + (options params).length) := by
  induction params generalizing n vars with
  | nil => rfl
  | cons item params ih =>
    obtain ⟨hitem, hothers⟩ := List.forall_mem_cons.mp h.others
    have hplain := h.plain
    have hwords := h.words
    rw [parseAllIn]
    cases hopt : asOption item with
    | none =>
      rw [options, List.filterMap_cons_none hopt] at hplain hwords ⊢
      rw [if_pos (optionPair_fst_eq_nil_iff.mpr (hitem hopt))]
      exact ih ⟨hothers, hplain, hwords⟩ hvars n
    | some option =>
      rw [options, List.filterMap_cons_some hopt] at hplain hwords ⊢
      obtain ⟨hsetting, hplains⟩ := List.forall_mem_cons.mp hplain
      obtain ⟨⟨hpattern, hblanks⟩, hwordss⟩ := List.forall_mem_cons.mp hwords
      have hself : option.2.rdropWhile (· = '\n') = option.2 := by
        rw [List.rdropWhile_eq_self_iff]
        intro hne
        simpa using (hsetting.setting.1.1.2 _ (List.getLast_mem hne)).1
      have hpair : optionPair item = (option.1, option.2) := by
        rw [optionPair_of_asOption hopt, hself]
      have hlocals : S.Visible (optionLocals item option.1 option.2 n ++ frame) :=
        (((hframe.cons (.inl (by decide))).cons (.inr (by decide))).cons (.inr (by decide))).cons
          (.inr (by decide))
      have hone : PlainEntries S [(option.1, S.expand option.2)] := by
        intro entry hentry
        rw [List.mem_singleton.mp hentry]
        exact hsetting.expand
      have hnext : S.Agrees (vars.assign option.1 (S.expand option.2)) := hvars.assignAll hone
      rw [hpair, if_neg hsetting.name.1.1, if_neg (hsetting.ne (by decide)),
        echo_plain S.keepsPlain hpattern hblanks, evalAssign_steady hsetting hvars hlocals,
        Option.bind_some, ih ⟨hothers, hplains, hwordss⟩ hnext (n + 1), List.length_cons,
        Nat.add_assoc, Nat.add_comm 1]
      rfl

/-! ## Variables -/

theorem setAll_get (h : key ∉ entries.map Prod.fst) (vars : Vars) :
    (vars.setAll entries).env[key]? = vars.env[key]? := by
  have hfold : ∀ env : ConfMap,
      (entries.foldl (fun env entry => env.insert entry.1 entry.2) env)[key]? = env[key]? := by
    induction entries with
    | nil => exact fun _ => rfl
    | cons entry entries ih =>
      intro env
      simp only [List.map_cons, List.mem_cons, not_or] at h
      rw [List.foldl_cons, ih h.2, Std.ExtTreeMap.getElem?_insert, if_neg]
      simpa using Ne.symm h.1
  exact hfold vars.env

theorem Script.Agrees.setAll (hvars : S.Agrees vars) (h : ∀ entry ∈ entries, entry.1 ∈ own) :
    S.Agrees (vars.setAll entries) := by
  intro name hused
  rw [setAll_get, hvars name hused]
  intro hmem
  obtain ⟨entry, hentry, rfl⟩ := List.mem_map.mp hmem
  exact (S.separate _ hused).1 (h entry hentry)

/-- Entries have been assigned, since `OPTLST` was empty: it lists their names, which have their
values. -/
structure Leaves (vars : Vars) (entries : List (Text × Text)) : Prop where
  value : ∀ key ∈ entries.map Prod.fst, vars.env[key]? = Settings.ofEntries entries key
  optlst : ∃ names, (∀ key, key ∈ names ↔ key ∈ entries.map Prod.fst) ∧
    vars.HasOptlst (optlstOf names)

theorem leaves_nil (h : vars.HasOptlst [' ']) : Leaves vars [] :=
  ⟨fun _ hkey => absurd hkey List.not_mem_nil, [], by simp, h⟩

/-- More assignments. -/
theorem Leaves.assignAll (h : Leaves vars entries) (hentries : PlainEntries S entries)
    (hentries' : PlainEntries S entries') :
    Leaves (vars.assignAll entries') (entries ++ entries') := by
  have hopt : ∀ key ∈ (entries ++ entries').map Prod.fst, key ≠ OPTLST := fun key hkey heq =>
    ((hentries.append hentries').names hkey).2.1 (heq ▸ by decide)
  obtain ⟨names, hnames, hlisted⟩ := h.optlst
  refine ⟨fun key hkey => ?_, ?_⟩
  · rw [Vars.assignAll_get _ _ (hopt key hkey), Settings.ofEntries_append]
    show (Settings.ofEntries entries' key).or _ = (Settings.ofEntries entries' key).or _
    cases hlater : Settings.ofEntries entries' key with
    | some value => rfl
    | none =>
      rw [List.map_append, List.mem_append] at hkey
      rw [h.value key (hkey.resolve_right (Settings.ofEntries_eq_none_iff.mp hlater))]
  · obtain ⟨names', heq, hiff⟩ := foldl_addOption_optlstOf
      (fun name hname => (hentries.names ((hnames name).mp hname)).1)
      (fun key hkey => (hentries'.names hkey).1)
    refine ⟨names', fun key => ?_, heq ▸ Vars.assignAll_optlst hlisted fun hmem => ?_⟩
    · rw [hiff, hnames, List.map_append, List.mem_append]
    · exact hopt OPTLST (by rw [List.map_append]; exact List.mem_append_right _ hmem) rfl

/-- The script assigns variables of its own. -/
theorem Leaves.setAll (h : Leaves vars entries) (hentries : PlainEntries S entries) :
    Leaves (vars.setAll fixed) entries := by
  have hown : ∀ key ∈ fixed.map Prod.fst, key ∈ own := fun key hkey => List.mem_append_right _ hkey
  obtain ⟨names, hnames, hlisted⟩ := h.optlst
  refine ⟨fun key hkey => ?_, names, hnames, ?_⟩
  · rw [setAll_get fun hmem => (hentries.names hkey).2.1 (hown key hmem), h.value key hkey]
  · rw [Vars.HasOptlst, setAll_get (by decide)]
    exact hlisted

/-! ## Writing -/

/-- **What `params_write` writes**: the settings that are not empty. -/
theorem paramsWrite_settings (h : Leaves vars entries) (hentries : PlainEntries S entries)
    (optind : Nat) : ∃ written, paramsWrite S.sh vars optind = some written ∧
      PlainEntries S written ∧
      Settings.ofEntries written = (Settings.ofEntries entries).compact := by
  obtain ⟨names, hnames, hlisted⟩ := h.optlst
  have hname : ∀ name ∈ names, IsName name := fun name hmem =>
    (hentries.names ((hnames name).mp hmem)).1
  have hkeys : writtenKeys S.sh vars = names := writtenKeys_eq S.keepsPlain hname hlisted
  have hlookup : ∀ name ∈ names, lookup vars [(OPTIND, decimal optind)] name =
      (Settings.ofEntries entries name).getD [] := by
    intro name hmem
    have hkey := (hnames name).mp hmem
    have hne : name ≠ OPTIND := fun heq => (hentries.names hkey).2.1 (heq ▸ by decide)
    rw [lookup, Vars.lookup_single, if_neg hne, Option.none_or, h.value name hkey]
  have hsettings : Settings.ofEntries ((names.map fun key =>
      (key, (Settings.ofEntries entries key).getD [])).filter fun pair => pair.2 ≠ []) =
        (Settings.ofEntries entries).compact := by
    funext key
    rw [Settings.ofEntries_filter_map, Settings.compact]
    cases hvalue : Settings.ofEntries entries key with
    | none => simp
    | some value =>
      have hmem : key ∈ names := by
        rw [hnames]
        by_contra hnot
        rw [Settings.ofEntries_eq_none_iff.mpr hnot] at hvalue
        cases hvalue
      by_cases hempty : value = [] <;> simp [hmem, hempty, Option.filter_some]
  have hmap : names.map (fun key => (key, lookup vars [(OPTIND, decimal optind)] key)) =
      names.map fun key => (key, (Settings.ofEntries entries key).getD []) :=
    List.map_congr_left fun name hmem => by rw [hlookup name hmem]
  rw [paramsWrite, hkeys, if_pos hname, hmap]
  refine ⟨_, rfl, fun entry hentry => ?_, hsettings⟩
  -- what is written has been assigned
  obtain ⟨hentry, hne⟩ := List.mem_filter.mp hentry
  obtain ⟨name, -, rfl⟩ := List.mem_map.mp hentry
  cases hvalue : Settings.ofEntries entries name with
  | none => simp [hvalue] at hne
  | some value => exact hentries _ (Settings.mem_of_ofEntries hvalue)

end

end Cli

end Anx.Conf
