import Anx.Conf.SettingsKept

/-!
# The parameters of `deploy`

`params_parse` (cli.sh:290–314) takes the options out of the arguments, and `deploy`
(cli.sh:1186–1198) shifts as many arguments away as options were found.

- `asOption`: the grammar: `--name` and `--name=value`;
- `made`: the assignments that the loop makes, in order;
- `parseAll_eq_made`: what the loop leaves in the variables are these assignments;
- `deployParams`: the variables and the names of the components;
- `made_eq_options_iff`: they are those of the options, if nothing else is taken for one and
  `eval` gets texts that give the values;
- `FollowsGrammar`, `Parsable`: the grammar is followed, and what the arguments need for it;
- `followsGrammar_iff`: **they need exactly this**.
-/

namespace Anx.Conf.Cli

open Anx.Lib ParamUtils Vars

/-! ## The grammar -/

/-- A name of an option: 1 to 32 characters of `[0-9a-z-]`. -/
def IsOptionName (name : Text) : Prop :=
  name ≠ [] ∧ name.length ≤ 32 ∧ ∀ c ∈ name, isOptionChar c = true

instance (name : Text) : Decidable (IsOptionName name) := inferInstanceAs (Decidable (_ ∧ _))

/-- The variable and the value of an argument `--name=value` or `--name`. -/
def asOption : Text → Option (Text × Text)
  | '-' :: '-' :: rest =>
    let name := rest.takeWhile (· ≠ '=')
    if IsOptionName name then
      some (name.map toKeyChar, if name = rest then "true".toList else rest.drop (name.length + 1))
    else none
  | _ => none

def isOption (item : Text) : Bool := (asOption item).isSome

/-- The assignments that the arguments stand for. -/
def options (params : List Text) : List (Text × Text) := params.filterMap asOption

/-- The arguments that are no options. -/
def operands (params : List Text) : List Text := params.filter fun item => !isOption item

theorem eq_not_mem_name {name : Text} (h : IsOptionName name) : '=' ∉ name :=
  fun hmem => absurd (h.2.2 _ hmem) (by decide)

/-- **The grammar**, as it is read. -/
theorem asOption_eq_some_iff {item key val : Text} : asOption item = some (key, val) ↔
    ∃ name, IsOptionName name ∧ key = name.map toKeyChar ∧
      (item = '-' :: '-' :: name ∧ val = "true".toList ∨
        item = '-' :: '-' :: (name ++ '=' :: val)) := by
  constructor
  · intro h
    rw [asOption.eq_def] at h
    split at h
    · next rest =>
      dsimp only at h
      by_cases heq : '=' ∈ rest
      · obtain ⟨name, value, rfl, hnot⟩ := List.eq_append_cons_of_mem heq
        have hvalue : (name ++ '=' :: value).drop (name.length + 1) = value := by
          rw [← List.drop_drop, List.drop_left]
          rfl
        have hne : ¬ name = name ++ '=' :: value := by simp
        rw [takeWhile_ne_append hnot, hvalue, if_neg hne] at h
        obtain ⟨hname, h⟩ := Option.ite_none_right_eq_some.mp h
        cases h
        exact ⟨name, hname, rfl, .inr rfl⟩
      · have hall : rest.takeWhile (· ≠ '=') = rest := beforeEq_eq_self_iff.mpr heq
        rw [hall, if_pos rfl] at h
        obtain ⟨hname, h⟩ := Option.ite_none_right_eq_some.mp h
        cases h
        exact ⟨rest, hname, rfl, .inl ⟨rfl, rfl⟩⟩
    · cases h
  · rintro ⟨name, hname, rfl, ⟨rfl, rfl⟩ | rfl⟩
    · have hall : name.takeWhile (· ≠ '=') = name :=
        beforeEq_eq_self_iff.mpr (eq_not_mem_name hname)
      rw [asOption]
      simp only [hall, if_pos hname, if_true]
    · have hvalue : (name ++ '=' :: val).drop (name.length + 1) = val := by
        rw [← List.drop_drop, List.drop_left]
        rfl
      rw [asOption]
      simp only [takeWhile_ne_append (eq_not_mem_name hname), if_pos hname, hvalue]
      rw [if_neg (by simp)]

/-- The characters of a key. -/
theorem isKeyChar_toKeyChar {c : Char} (h : isOptionChar c = true) :
    isKeyChar (toKeyChar c) = true := by
  have hall : ∀ n < 128, isOptionChar (Char.ofNat n) = true →
      isKeyChar (toKeyChar (Char.ofNat n)) = true := by decide
  have hlt : c.toNat < 128 := by
    simp only [isOptionChar, Bool.or_eq_true, Bool.and_eq_true, decide_eq_true_eq] at h
    rcases h with (⟨-, h⟩ | ⟨-, h⟩) | rfl
    · exact Nat.lt_of_le_of_lt (UInt32.le_iff_toNat_le.mp h) (by decide)
    · exact Nat.lt_of_le_of_lt (UInt32.le_iff_toNat_le.mp h) (by decide)
    · decide
  have hself := hall c.toNat hlt
  rw [Char.ofNat_toNat] at hself
  exact hself h

theorem eq_not_mem_key {name : Text} (h : ∀ c ∈ name, isOptionChar c = true) :
    '=' ∉ name.map toKeyChar := by
  intro hmem
  obtain ⟨c, hc, hkey⟩ := List.mem_map.mp hmem
  exact absurd (isKeyChar_toKeyChar (h c hc)) (by rw [hkey]; decide)

/-- The loop finds the options, and their values without newlines at the end. -/
theorem optionPair_of_asOption {item key val : Text} (h : asOption item = some (key, val)) :
    optionPair item = (key, val.rdropWhile (· = '\n')) := by
  obtain ⟨name, ⟨hne, hlen, hchars⟩, rfl, ⟨rfl, rfl⟩ | rfl⟩ := asOption_eq_some_iff.mp h
  · have hhead : optionHead ('-' :: '-' :: (name ++ [])) = name ++ [].take 1 :=
      optionHead_name hlen hchars hne (.inl rfl)
    rw [List.append_nil, List.take_nil, List.append_nil] at hhead
    rw [optionPair, hhead]
    exact if_pos ⟨by simpa using hne, eq_not_mem_key hchars⟩
  · exact optionPair_value hlen hchars hne val

theorem key_ne_nil {item : Text} {option : Text × Text} (h : asOption item = some option) :
    (optionPair item).1 ≠ [] := by
  obtain ⟨key, val⟩ := option
  rw [optionPair_of_asOption h]
  obtain ⟨name, ⟨hne, -⟩, rfl, -⟩ := asOption_eq_some_iff.mp h
  simpa using hne

/-- What `expr` yields has an `=` at its end only, behind a name. -/
theorem optionHead_spec (item : Text) : (∀ c ∈ optionHead item, isOptionChar c = true) ∨
    ∃ name ≠ [], optionHead item = name ++ ['='] := by
  rw [optionHead.eq_def]
  split
  · next rest =>
    dsimp only
    split
    · next h => exact .inr ⟨_, h.1, rfl⟩
    · exact .inl fun c hc => List.mem_takeWhile_imp (List.mem_of_mem_take hc)
  · split
    · exact .inl (by decide)
    · exact .inl (by simp)

/-- An argument is passed over exactly if `expr` finds no name. -/
theorem optionPair_fst_eq_nil_iff {item : Text} :
    (optionPair item).1 = [] ↔ optionHead item = [] := by
  rw [optionPair]
  rcases optionHead_spec item with hchars | ⟨name, hne, hhead⟩
  · by_cases hnil : optionHead item = []
    · simp [hnil]
    · have heq : '=' ∉ (optionHead item).map toKeyChar := eq_not_mem_key hchars
      simp [hnil, heq]
  · have heq : '=' ∈ (optionHead item).map toKeyChar := by
      rw [hhead, List.map_append]
      exact List.mem_append_right _ (by decide)
    rw [if_neg fun h => h.2 heq, hhead, List.map_append]
    simp [hne]

/-! ## The loop -/

/-- The assignments of the loop of `params_parse`, in order; `none` where it does more than
to assign ordinary variables. -/
def made (sh : Bash) (conf : Text) : Nat → Vars → List Text → Option (List (Text × Text))
  | _, _, [] => some []
  | n, vars, item :: items =>
    let key := (optionPair item).1
    let val := (optionPair item).2
    if key = [] then made sh conf n vars items
    else if key = OPTIND then none
    else (evalAssign sh vars (parseLocals conf item key val n) key
        (echo sh.toShell (writePair key val))).bind fun value =>
      (made sh conf (n + 1) (vars.assign key value) items).map ((key, value) :: ·)

variable {sh : Bash} {conf : Text} {vars : Vars} {params : List Text}

/-- **The loop** leaves its assignments in the variables, and their number in `OPTIND`. -/
theorem parseAll_eq_made (n : Nat) (vars : Vars) (params : List Text) :
    parseAll sh conf n vars params = (made sh conf n vars params).map
      fun entries => (vars.assignAll entries, n + entries.length) := by
  induction params generalizing n vars with
  | nil => rfl
  | cons item params ih =>
    rw [parseAll_cons, made]
    split
    · exact ih n vars
    split
    · rfl
    cases evalAssign sh vars _ _ _ with
    | none => rfl
    | some value =>
      rw [Option.bind_some, Option.bind_some, ih, Option.map_map]
      congr 1
      funext entries
      simp only [Function.comp_apply, List.length_cons, Nat.add_assoc, Nat.add_comm 1]
      rfl

/-- What `deploy` goes on with: the variables, and the arguments that are left after
`shift $((OPTIND-1))`. `source_conf` and `target_conf` are not set there. -/
def deployParams (sh : Bash) (vars : Vars) (params : List Text) : Option (Vars × List Text) :=
  (paramsParse sh [] vars params).map fun (vars, optind) => (vars, params.drop (optind - 1))

theorem deployParams_eq_made (vars : Vars) (params : List Text) :
    deployParams sh vars params = (made sh [] 1 vars params).map
      fun entries => (vars.assignAll entries, params.drop entries.length) := by
  rw [deployParams, paramsParse, parseAll_eq_made, Option.map_map]
  congr 1
  funext entries
  dsimp only [Function.comp_apply]
  rw [Nat.add_sub_cancel_left]

/-- The first assignments are for the options at least. -/
theorem length_options_le_made {n : Nat} {entries : List (Text × Text)}
    (h : made sh conf n vars params = some entries) : (options params).length ≤ entries.length := by
  induction params generalizing n vars entries with
  | nil => exact Nat.zero_le _
  | cons item params ih =>
    rw [made] at h
    split at h
    · next hkey =>
      have hnone : asOption item = none := by
        cases hopt : asOption item with
        | none => rfl
        | some option => exact absurd hkey (key_ne_nil hopt)
      rw [options, List.filterMap_cons_none hnone]
      exact ih h
    split at h
    · cases h
    obtain ⟨value, -, hrest⟩ := Option.bind_eq_some_iff.mp h
    obtain ⟨entries, hmade, rfl⟩ := Option.map_eq_some_iff.mp hrest
    have hle := ih hmade
    have hcons : (options (item :: params)).length ≤ (options params).length + 1 := by
      rw [options, List.filterMap_cons]
      split
      · exact Nat.le_succ _
      · exact Nat.le_refl _
    exact hcons.trans (Nat.succ_le_succ hle)

/-! ## The condition -/

/-- The texts that `eval` gets for the options, each in the variables that the earlier ones
leave, assign their values. -/
def Assigned (sh : Bash) (conf : Text) : Nat → Vars → List Text → Prop
  | _, _, [] => True
  | n, vars, item :: params =>
    match asOption item with
    | none => Assigned sh conf n vars params
    | some (key, val) =>
      let text := val.rdropWhile (· = '\n')
      key ≠ OPTIND ∧
        evalAssign sh vars (parseLocals conf item key text n) key
          (echo sh.toShell (writePair key text)) = some val ∧
        Assigned sh conf (n + 1) (vars.assign key val) params

/-- Options whose values are literal, with single blanks and without pattern characters, are
assigned, if their names are names of variables. -/
theorem assigned_plain (hplain : sh.KeepsPlain)
    (h : ∀ option ∈ options params, option.1 ≠ OPTIND ∧ isVariable sh.toShell option.1 = true ∧
      IsLiteral option.2 ∧ NoPattern (writePair option.1 option.2) ∧
      [' '].intercalate (pieces isIFS (writePair option.1 option.2)) =
        writePair option.1 option.2) (n : Nat) (vars : Vars) : Assigned sh conf n vars params := by
  induction params generalizing n vars with
  | nil => trivial
  | cons item params ih =>
    rw [Assigned]
    cases hopt : asOption item with
    | none =>
      rw [options, List.filterMap_cons_none hopt] at h
      exact ih h n vars
    | some option =>
      rw [options, List.filterMap_cons_some hopt] at h
      obtain ⟨⟨hown, hvar, hliteral, hpattern, hblanks⟩, hrest⟩ := List.forall_mem_cons.mp h
      have hself : option.2.rdropWhile (· = '\n') = option.2 := by
        rw [List.rdropWhile_eq_self_iff]
        intro hne
        simpa using (hliteral.1.2 _ (List.getLast_mem hne)).1
      dsimp only
      rw [hself, echo_plain hplain hpattern hblanks]
      exact ⟨hown, evalAssign_plain hvar hliteral, ih hrest _ _⟩

/-- **The assignments** are those of the options exactly if nothing else is taken for one,
and the options are assigned. -/
theorem made_eq_options_iff (n : Nat) (vars : Vars) (params : List Text) :
    made sh conf n vars params = some (options params) ↔
      (∀ item ∈ params, asOption item = none → optionHead item = []) ∧
        Assigned sh conf n vars params := by
  induction params generalizing n vars with
  | nil => exact ⟨fun _ => ⟨by simp, trivial⟩, fun _ => rfl⟩
  | cons item params ih =>
    rw [made, List.forall_mem_cons, Assigned]
    cases hopt : asOption item with
    | none =>
      rw [options, List.filterMap_cons_none hopt]
      by_cases hkey : (optionPair item).1 = []
      · dsimp only
        rw [if_pos hkey, and_assoc]
        have hhead : optionHead item = [] := optionPair_fst_eq_nil_iff.mp hkey
        exact (ih n vars).trans ⟨fun h => ⟨fun _ => hhead, h⟩, fun h => h.2⟩
      · -- one assignment too many
        refine ⟨fun h => ?_, fun h => absurd (optionPair_fst_eq_nil_iff.mpr (h.1.1 rfl)) hkey⟩
        rw [if_neg hkey] at h
        split at h
        · cases h
        obtain ⟨value, -, hrest⟩ := Option.bind_eq_some_iff.mp h
        obtain ⟨entries, hrest, heq⟩ := Option.map_eq_some_iff.mp hrest
        have hle := length_options_le_made hrest
        rw [options, ← heq, List.length_cons] at hle
        exact absurd hle (Nat.not_succ_le_self _)
    | some option =>
      obtain ⟨key, val⟩ := option
      have hpair := optionPair_of_asOption hopt
      have hne : key ≠ [] := by
        have hne := key_ne_nil hopt
        rwa [hpair] at hne
      have hcons : options (item :: params) = (key, val) :: options params :=
        List.filterMap_cons_some hopt
      dsimp only
      rw [hpair, hcons, if_neg hne]
      by_cases hown : key = OPTIND
      · rw [if_pos hown]
        exact ⟨by simp, fun h => absurd hown h.2.1⟩
      rw [if_neg hown]
      constructor
      · intro h
        obtain ⟨value, hvalue, hrest⟩ := Option.bind_eq_some_iff.mp h
        obtain ⟨entries, hrest, heq⟩ := Option.map_eq_some_iff.mp hrest
        cases heq
        obtain ⟨hothers, hassigned⟩ := (ih _ _).mp hrest
        exact ⟨⟨by simp, hothers⟩, hown, hvalue, hassigned⟩
      · rintro ⟨⟨-, hothers⟩, -, hvalue, hassigned⟩
        rw [hvalue, Option.bind_some, (ih _ _).mpr ⟨hothers, hassigned⟩]
        rfl

/-- Counting what satisfies `p` and dropping as many leaves the others exactly if those that
satisfy it come first. -/
theorem drop_countP_eq_filter_iff {α : Type*} (p : α → Bool) (l : List α) :
    l.drop (l.countP p) = l.filter (fun a => !p a) ↔
      l.Pairwise fun a b => p b = true → p a = true := by
  induction l with
  | nil => simp
  | cons a l ih =>
    by_cases ha : p a = true
    · rw [List.countP_cons_of_pos ha, List.drop_succ_cons, List.filter_cons_of_neg (by simp [ha]),
        ih, List.pairwise_cons, and_iff_right fun _ _ _ => ha]
    · rw [List.countP_cons_of_neg ha, List.filter_cons_of_pos (by simp [ha]), List.pairwise_cons]
      constructor
      · -- the first one is no longer there if any is dropped
        intro h
        have hnone : ∀ b ∈ l, ¬ p b = true := by
          rw [← List.countP_eq_zero]
          cases hn : l.countP p with
          | zero => rfl
          | succ n =>
            rw [hn, List.drop_succ_cons] at h
            have hcount := congrArg (List.countP p) h
            have htake : (l.take n).countP p + (l.drop n).countP p = _ :=
              List.countP_append.symm
            rw [List.take_append_drop, hn] at htake
            have hle := (List.countP_le_length (p := p) (l := l.take n)).trans
              (List.length_take_le n l)
            have hzero : (a :: l.filter fun a => !p a).countP p = 0 := by
              rw [List.countP_cons_of_neg ha, List.countP_eq_zero]
              exact fun b hb => by simpa using (List.mem_filter.mp hb).2
            omega
        exact ⟨fun b hb hp => absurd hp (hnone b hb),
          List.pairwise_of_forall_mem_list fun _ _ b hb hp => absurd hp (hnone b hb)⟩
      · rintro ⟨hfirst, -⟩
        have hnone : ∀ b ∈ l, ¬ p b = true := fun b hb hp => ha (hfirst b hb hp)
        have hkept : (l.filter fun a => !p a) = l :=
          List.filter_eq_self.mpr fun b hb => by simpa using hnone b hb
        rw [List.countP_eq_zero.mpr hnone, hkept, List.drop_zero]

/-! ## Following the grammar -/

/-- The grammar is followed: the assignments are those of the options, in order, of which
the last one for a variable counts, and the names that are left are the other arguments. -/
def FollowsGrammar (sh : Bash) (vars : Vars) (params : List Text) : Prop :=
  made sh [] 1 vars params = some (options params) ∧
    ∃ vars', deployParams sh vars params = some (vars', operands params) ∧
      (∀ key val, (options params).reverse.lookup key = some val → vars'.env[key]? = some val) ∧
      ∀ key, key ≠ OPTLST → key ∉ (options params).map Prod.fst →
        vars'.env[key]? = vars.env[key]?

/-- What the arguments need: nothing else starts like an option, the options come first, each
is assigned its value, and a value for `OPTLST` itself lists the options from there on. -/
structure Parsable (sh : Bash) (vars : Vars) (params : List Text) : Prop where
  others : ∀ item ∈ params, asOption item = none → optionHead item = []
  first : params.Pairwise fun item item' => isOption item' = true → isOption item = true
  assigned : Assigned sh [] 1 vars params
  optlst : ∀ before val after, options params = before ++ (OPTLST, val) :: after →
    OPTLST ∉ after.map Prod.fst →
      val = [] ∨ ∀ key ∈ OPTLST :: after.map Prod.fst, (' ' :: (key ++ [' '])) <:+: val

theorem length_options (params : List Text) : (options params).length = params.countP isOption := by
  rw [options, List.length_filterMap_eq_countP]
  rfl

/-- **The parameters of `deploy`** follow the grammar exactly under this condition. -/
theorem followsGrammar_iff (sh : Bash) (vars : Vars) (params : List Text) :
    FollowsGrammar sh vars params ↔ Parsable sh vars params := by
  constructor
  · rintro ⟨hmade, vars', hdeploy, hlast, -⟩
    obtain ⟨hothers, hassigned⟩ := (made_eq_options_iff _ _ _).mp hmade
    rw [deployParams_eq_made, hmade, Option.map_some, length_options] at hdeploy
    obtain ⟨rfl, hrest⟩ := Prod.mk.inj (Option.some.inj hdeploy)
    refine ⟨hothers, (drop_countP_eq_filter_iff _ _).mp hrest, hassigned, ?_⟩
    intro before val after hsplit hafter
    have hval := hlast OPTLST val (by
      rw [hsplit, List.reverse_append, List.lookup_append, lookup_reverse_cons,
        lookup_eq_none_iff_not_mem.mpr (by simpa using hafter), if_pos rfl]
      rfl)
    have hopt : (vars.assignAll (options params)).HasOptlst _ :=
      assignAll_optlst_assigned hsplit hafter
    rw [HasOptlst, hval] at hopt
    exact (foldl_addOption_eq_iff _ _).mp (Option.some.inj hopt).symm
  · rintro ⟨hothers, hfirst, hassigned, hoptlst⟩
    have hmade := (made_eq_options_iff _ _ _).mpr ⟨hothers, hassigned⟩
    refine ⟨hmade, vars.assignAll (options params), ?_, fun key val hlookup => ?_,
      fun key hopt hkey => ?_⟩
    · rw [deployParams_eq_made, hmade, Option.map_some, length_options,
        (drop_countP_eq_filter_iff _ _).mpr hfirst]
      rfl
    · by_cases hkey : key = OPTLST
      · subst hkey
        obtain ⟨before, after, hsplit, hafter⟩ := exists_last hlookup
        have hopt : (vars.assignAll (options params)).HasOptlst _ :=
          assignAll_optlst_assigned hsplit hafter
        rwa [(foldl_addOption_eq_iff _ _).mpr (hoptlst _ _ _ hsplit hafter)] at hopt
      · rw [assignAll_get _ _ hkey, hlookup, Option.some_or]
    · rw [assignAll_get _ _ hopt, lookup_eq_none_iff_not_mem.mpr (by simpa using hkey),
        Option.none_or]

/-- Of the two blanks in `--target-path=/sdcard/my  disk.img` one is lost. -/
theorem not_followsGrammar : ¬ ∀ sh : Bash, sh.Expands → sh.KeepsPlain → ∀ vars params,
    (∀ option ∈ options params, ∀ c ∈ option.2, c ∉ ['"', '$', '`', '\\']) →
      FollowsGrammar sh vars params := by
  intro h
  obtain ⟨hmade, -⟩ := h plainBash plainBash_expands plainBash_keepsPlain ⟨∅, []⟩
    ["--target-path=/sdcard/my  disk.img".toList] (by decide)
  have hvalue : made plainBash [] 1 ⟨∅, []⟩ ["--target-path=/sdcard/my  disk.img".toList] =
      some [("TARGET_PATH".toList, "/sdcard/my disk.img".toList)] := rfl
  rw [hvalue, Option.some_inj] at hmade
  exact absurd hmade (by decide)

end Anx.Conf.Cli
