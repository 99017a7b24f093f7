/-
The ways to write options on a command line.  A grammar tells which uses of options a line
spells; reading the line comes down to taking these in one after the other, and every line
that asks for a job is one of the grammar.
-/
import Mathlib.Data.List.TakeWhile
import FirmwareUpdate.CommandLine.Parse

namespace FirmwareUpdate

namespace CommandLine

namespace OptionName

theorem ofLong?_long (o : OptionName) : ofLong? o.long = some o := by
  cases o <;> decide

theorem eq_long_of_ofLong? {o : OptionName} {name : String} (h : ofLong? name = some o) :
    name = o.long := by
  have hfound := List.find?_some h
  exact (beq_iff_eq.mp hfound).symm

theorem ofShort?_eq_some_iff {o : OptionName} {c : Char} :
    ofShort? c = some o ↔ o.short? = some c := by
  constructor
  · intro h
    have hfound := List.find?_some h
    exact beq_iff_eq.mp hfound
  · cases o <;> simp only [short?, Option.some.injEq, reduceCtorEq, false_implies] <;>
      (rintro rfl; rfl)

theorem long_ne_nil (o : OptionName) : o.long.toList ≠ [] := by
  cases o <;> decide

theorem ne_equals_of_mem_long (o : OptionName) : ∀ c ∈ o.long.toList, (c != '=') = true := by
  apply List.all_eq_true.mp
  cases o <;> rfl

end OptionName

/-- An option with the value that is given to it. -/
abbrev Use := OptionName × Option String

/-- A word that is not taken for an option: nothing stands behind a dash in front. -/
def IsValue (text : String) : Prop :=
  ∀ c rest, text.toList ≠ '-' :: c :: rest

/-- The letters behind one dash, the uses that they spell, and the option whose value must
come with the next argument. -/
inductive Letters : List Char → List Use → Option OptionName → Prop
  | nil : Letters [] [] none
  | flag {o c rest uses open?} (hc : o.short? = some c) (ho : o.valueWord? = none)
      (hrest : Letters rest uses open?) : Letters (c :: rest) ((o, none) :: uses) open?
  | joined {o c} (value : List Char) (hc : o.short? = some c) (ho : o.valueWord?.isSome)
      (hnil : value ≠ []) (hequals : value.head? ≠ some '=') :
      Letters (c :: value) [(o, some (String.ofList value))] none
  | assigned {o c} (value : List Char) (hc : o.short? = some c) (ho : o.valueWord?.isSome) :
      Letters (c :: '=' :: value) [(o, some (String.ofList value))] none
  | last {o c} (hc : o.short? = some c) (ho : o.valueWord?.isSome) : Letters [c] [] (some o)

/-- One argument, the uses that it spells, and the option whose value must come next. -/
inductive Spelled : String → List Use → Option OptionName → Prop
  | flag {o} (ho : o.valueWord? = none) : Spelled ("--" ++ o.long) [(o, none)] none
  | assigned {o} (ho : o.valueWord?.isSome) (value : String) :
      Spelled ("--" ++ o.long ++ "=" ++ value) [(o, some value)] none
  | last {o} (ho : o.valueWord?.isSome) : Spelled ("--" ++ o.long) [] (some o)
  | letters {c rest uses open?} (h : Letters (c :: rest) uses open?) :
      Spelled (String.ofList ('-' :: c :: rest)) uses open?

/-- The uses that a command line spells.  Two dashes may end it. -/
inductive Spells : List String → List Use → Prop
  | nil : Spells [] []
  | dashes : Spells ["--"] []
  | closed {text rest uses more} (htext : Spelled text uses none) (hrest : Spells rest more) :
      Spells (text :: rest) (uses ++ more)
  | value {text word rest uses more o} (htext : Spelled text uses (some o)) (hword : IsValue word)
      (hrest : Spells rest more) : Spells (text :: word :: rest) (uses ++ (o, some word) :: more)

namespace Reading

variable {r r' : Reading} {o : OptionName} {attached : Option String} {text : String}
  {uses : List Use} {open? : Option OptionName}

/-- Take in options in order. -/
def take (r : Reading) : List Use → Except Stop Reading
  | [] => .ok r
  | (o, value) :: rest =>
      match r.accept o value with
      | .error e => .error e
      | .ok r => r.take rest

/-- The reading that waits for the value of an option, if there is one. -/
def await (r : Reading) (open? : Option OptionName) : Reading :=
  { r with waiting := open?.map (·, none) }

/-- The value of an option is kept whatever waits. -/
theorem store_congr (r : Reading) (o : OptionName) (value : String)
    (waiting : Option (OptionName × Option String)) (ended : Bool) :
    ({ r with waiting := waiting, ended := ended } : Reading).store o value =
      (r.store o value).map fun r => { r with waiting := waiting, ended := ended } := by
  cases o with
  | input | output =>
      simp only [store]
      split <;> rfl
  | cipher | mode =>
      simp only [store]
      split <;> rfl
  | checksum =>
      simp only [store]
      split
      · rfl
      · split <;> rfl
  | _ => rfl

/-- Taking in an option looks at what has been given, not at what waits. -/
theorem accept_congr (r : Reading) (o : OptionName) (value : Option String)
    (waiting : Option (OptionName × Option String)) (ended : Bool) :
    ({ r with waiting := waiting, ended := ended } : Reading).accept o value =
      (r.accept o value).map fun r => { r with waiting := waiting, ended := ended } := by
  unfold accept
  by_cases hmissing : (o.valueWord?.isSome && value.isNone) = true
  · rw [if_pos hmissing, if_pos hmissing]
    rfl
  rw [if_neg hmissing, if_neg hmissing]
  by_cases hgiven : o ∈ r.given
  · rw [if_pos hgiven, if_pos hgiven]
    rfl
  rw [if_neg hgiven, if_neg hgiven]
  cases o with
  | help | version => rfl
  | _ => exact store_congr { r with given := r.given ++ [_] } _ _ waiting ended

/-- Options are taken in without a change to what waits. -/
theorem waiting_of_accept {value : Option String} (h : r.accept o value = .ok r') :
    r'.waiting = r.waiting ∧ r'.ended = r.ended := by
  have hcongr := accept_congr r o value r.waiting r.ended
  rw [h] at hcongr
  have heq : r' = { r' with waiting := r.waiting, ended := r.ended } := Except.ok.inj hcongr
  exact ⟨congrArg (·.waiting) heq, congrArg (·.ended) heq⟩

theorem take_cons_eq_ok_iff {value : Option String} {rest : List Use} :
    r.take ((o, value) :: rest) = .ok r' ↔
      ∃ next, r.accept o value = .ok next ∧ next.take rest = .ok r' := by
  simp only [take]
  cases r.accept o value <;> simp

theorem waiting_of_take (h : r.take uses = .ok r') :
    r'.waiting = r.waiting ∧ r'.ended = r.ended := by
  induction uses generalizing r with
  | nil =>
      cases h
      exact ⟨rfl, rfl⟩
  | cons use rest ih =>
      obtain ⟨next, haccept, hrest⟩ := take_cons_eq_ok_iff.mp h
      obtain ⟨hwaiting, hended⟩ := waiting_of_accept haccept
      exact ⟨(ih hrest).1.trans hwaiting, (ih hrest).2.trans hended⟩

theorem take_cons (r : Reading) (o : OptionName) (value : Option String) (rest : List Use) :
    r.take ((o, value) :: rest) = (r.accept o value).bind (·.take rest) := by
  simp only [take]
  cases r.accept o value <;> rfl

theorem take_cons_of_ok {next : Reading} {value : Option String} {rest : List Use}
    (h : r.accept o value = .ok next) : r.take ((o, value) :: rest) = next.take rest := by
  simp only [take, h]

theorem take_append (r : Reading) (uses more : List Use) :
    r.take (uses ++ more) = (r.take uses).bind (·.take more) := by
  induction uses generalizing r with
  | nil => rfl
  | cons use rest ih =>
      simp only [List.cons_append, take]
      cases r.accept use.1 use.2 with
      | error e => rfl
      | ok next => exact ih next

/-- Nothing waits once the option that waited has been taken in. -/
theorem waiting_of_settle (h : r.settle = .ok r') : r'.waiting = none ∧ r'.ended = r.ended := by
  unfold settle at h
  split at h
  · rename_i hnone
    cases h
    exact ⟨hnone, rfl⟩
  · exact waiting_of_accept h

theorem settle_of_waiting (h : r.waiting = none) : r.settle = .ok r := by
  simp only [settle, h]

theorem await_none (h : r.waiting = none) : r.await none = r := by
  cases r
  cases h
  rfl

/-- What waits is taken in before the next option is named. -/
theorem name_eq (r : Reading) (o : OptionName) (attached : Option String) :
    r.name o attached = r.settle.bind (·.name o attached) := by
  cases hsettle : r.settle with
  | error e =>
      simp only [name, hsettle]
      rfl
  | ok next =>
      have hnext := settle_of_waiting (waiting_of_settle hsettle).1
      simp only [Except.bind, name, hsettle, hnext]

theorem name_of_waiting (h : r.waiting = none) (o : OptionName) (attached : Option String) :
    r.name o attached =
      if o.valueWord?.isSome && attached.isNone then .ok (r.await (some o))
      else r.accept o attached := by
  simp only [name, settle_of_waiting h]
  rfl

/-- Where nothing waits, an option that lacks no value is taken in at once. -/
theorem name_complete (h : r.waiting = none)
    (ho : (o.valueWord?.isSome && attached.isNone) = false) :
    r.name o attached = (r.take [(o, attached)]).map (·.await none) := by
  rw [name_of_waiting h, ho, if_neg Bool.false_ne_true, take]
  cases haccept : r.accept o attached with
  | error e => rfl
  | ok next =>
      have hnext := (waiting_of_accept haccept).1.trans h
      simp only [take, Except.map, await_none hnext]

/-- Where nothing waits, an option without its value is waited for. -/
theorem name_none (h : r.waiting = none) (ho : o.valueWord?.isSome) :
    r.name o none = .ok (r.await (some o)) := by
  rw [name_of_waiting h, ho, Option.isNone_none, Bool.and_true, if_pos rfl]

/-- Letters are read as the uses that they spell. -/
theorem letters_of_waiting {cs : List Char} (h : Letters cs uses open?) (hr : r.waiting = none) :
    r.letters cs = (r.take uses).map (·.await open?) := by
  induction h generalizing r with
  | nil =>
      rw [take, Except.map, await_none hr]
      rfl
  | @flag o c rest uses open? hc ho hrest ih =>
      simp only [letters, OptionName.ofShort?_eq_some_iff.mpr hc, ho, take, name_of_waiting hr,
        Option.isNone_none, if_true, Option.isSome_none, Bool.false_and, Bool.false_eq_true,
        if_false]
      cases haccept : r.accept o none with
      | error e => rfl
      | ok next => exact ih ((waiting_of_accept haccept).1.trans hr)
  | @joined o c value hc ho hnil hequals =>
      have hsome : o.valueWord?.isNone = false := by simpa [Option.isSome_iff_ne_none] using ho
      rw [← name_complete hr (Bool.and_false _)]
      cases value with
      | nil => exact absurd rfl hnil
      | cons d rest =>
          simp only [letters, OptionName.ofShort?_eq_some_iff.mpr hc, hsome, Bool.false_eq_true,
            if_false]
          split
          · contradiction
          · simp_all
          · rfl
  | @assigned o c value hc ho =>
      have hsome : o.valueWord?.isNone = false := by simpa [Option.isSome_iff_ne_none] using ho
      rw [← name_complete hr (Bool.and_false _)]
      simp only [letters, OptionName.ofShort?_eq_some_iff.mpr hc, hsome, Bool.false_eq_true,
        if_false]
  | @last o c hc ho =>
      have hsome : o.valueWord?.isNone = false := by simpa [Option.isSome_iff_ne_none] using ho
      simp only [letters, OptionName.ofShort?_eq_some_iff.mpr hc, hsome, Bool.false_eq_true,
        if_false, name_none hr ho]
      rfl

/-- The reading of letters starts with taking in what waits. -/
theorem letters_eq {c : Char} (hc : OptionName.ofShort? c = some o) (rest : List Char) :
    r.letters (c :: rest) = r.settle.bind (·.letters (c :: rest)) := by
  have hname (attached : Option String) := name_eq r o attached
  cases hsettle : r.settle with
  | error e =>
      simp only [hsettle, Except.bind] at hname ⊢
      simp only [letters, hc, hname]
      split
      · rfl
      · split <;> rfl
  | ok next =>
      simp only [hsettle, Except.bind] at hname ⊢
      simp only [letters, hc, hname]

theorem word_long (r : Reading) (o : OptionName) : r.word o.long.toList = r.name o none := by
  have htake : o.long.toList.takeWhile (· != '=') = o.long.toList :=
    List.takeWhile_eq_self_iff.mpr o.ne_equals_of_mem_long
  have hdrop : o.long.toList.dropWhile (· != '=') = [] :=
    List.dropWhile_eq_nil_iff.mpr o.ne_equals_of_mem_long
  simp only [word, htake, hdrop, String.ofList_toList, o.ofLong?_long]
  cases o.valueWord? <;> rfl

theorem word_assigned (r : Reading) (ho : o.valueWord?.isSome) (value : String) :
    r.word (o.long.toList ++ '=' :: value.toList) = r.name o (some value) := by
  have htake : (o.long.toList ++ '=' :: value.toList).takeWhile (· != '=') = o.long.toList := by
    rw [List.takeWhile_append_of_pos o.ne_equals_of_mem_long]
    simp
  have hdrop : (o.long.toList ++ '=' :: value.toList).dropWhile (· != '=')
      = '=' :: value.toList := by
    rw [List.dropWhile_append_of_pos o.ne_equals_of_mem_long]
    simp
  obtain ⟨shown, hshown⟩ := Option.isSome_iff_exists.mp ho
  simp only [word, htake, hdrop, String.ofList_toList, o.ofLong?_long, hshown]

theorem argument_dashes {cs : List Char} (hr : r.ended = false)
    (htext : text.toList = '-' :: '-' :: cs) (hcs : cs ≠ []) : r.argument text = r.word cs := by
  cases cs with
  | nil => exact absurd rfl hcs
  | cons c rest => simp only [argument, hr, Bool.false_eq_true, if_false, htext]

theorem argument_long (hr : r.ended = false) (o : OptionName) :
    r.argument ("--" ++ o.long) = r.name o none := by
  rw [argument_dashes hr (String.toList_append ..) o.long_ne_nil, word_long]

theorem argument_assigned (hr : r.ended = false) (ho : o.valueWord?.isSome) (value : String) :
    r.argument ("--" ++ o.long ++ "=" ++ value) = r.name o (some value) := by
  have htext : ("--" ++ o.long ++ "=" ++ value).toList
      = '-' :: '-' :: (o.long.toList ++ '=' :: value.toList) := by
    simp [String.toList_append]
  rw [argument_dashes hr htext (by simp), word_assigned r ho]

theorem argument_letters {c : Char} (hr : r.ended = false) (hc : OptionName.ofShort? c = some o)
    (rest : List Char) :
    r.argument (String.ofList ('-' :: c :: rest)) = r.letters (c :: rest) := by
  have hdash : c ≠ '-' := by
    rintro rfl
    have hnone : OptionName.ofShort? '-' = none := by decide
    rw [hnone] at hc
    cases hc
  have htext : (String.ofList ('-' :: c :: rest)).toList = '-' :: c :: rest :=
    String.toList_ofList
  simp only [argument, hr, Bool.false_eq_true, if_false, htext]
  split
  · simp_all
  · simp_all
  · rename_i h
    rw [List.cons.injEq] at h
    rw [h.2]
  · rename_i h
    exact absurd rfl (h _ _)

/-- An argument is read as the uses that it spells, behind what waits. -/
theorem argument_of_spelled (hr : r.ended = false) (h : Spelled text uses open?) :
    r.argument text = r.settle.bind fun r => (r.take uses).map (·.await open?) := by
  have hsettled {next : Reading} (hnext : r.settle = .ok next) := (waiting_of_settle hnext).1
  cases h with
  | @flag o ho =>
      rw [argument_long hr, name_eq]
      cases hsettle : r.settle with
      | error e => rfl
      | ok next => exact name_complete (hsettled hsettle) (by simp [ho])
  | @assigned o ho value =>
      rw [argument_assigned hr ho, name_eq]
      cases hsettle : r.settle with
      | error e => rfl
      | ok next => exact name_complete (hsettled hsettle) (Bool.and_false _)
  | @last o ho =>
      rw [argument_long hr, name_eq]
      cases hsettle : r.settle with
      | error e => rfl
      | ok next => exact name_none (hsettled hsettle) ho
  | @letters c rest _ _ h =>
      obtain ⟨o, hc⟩ : ∃ o, OptionName.ofShort? c = some o := by
        cases h with
        | flag hc | joined _ hc | assigned _ hc | last hc =>
            exact ⟨_, OptionName.ofShort?_eq_some_iff.mpr hc⟩
      rw [argument_letters hr hc, letters_eq hc]
      cases hsettle : r.settle with
      | error e => rfl
      | ok next => exact letters_of_waiting h (hsettled hsettle)

theorem value_of_isValue (hr : r.ended = false) (hword : IsValue text)
    (hwaiting : r.waiting = some (o, none)) :
    r.argument text = .ok { r with waiting := some (o, some text) } := by
  have hargument : r.argument text = r.value text := by
    simp only [argument, hr, Bool.false_eq_true, if_false]
    split
    · rename_i h
      exact absurd h (hword _ _)
    · rename_i h
      exact absurd h (hword _ _)
    · rename_i h
      exact absurd h (hword _ _)
    · rfl
  simp only [hargument, value, hwaiting]

/-- Whether all options have been read does not matter to the job. -/
theorem settle_ended (r : Reading) :
    ({ r with ended := true } : Reading).settle.bind job = r.settle.bind job := by
  cases hwaiting : r.waiting with
  | none => simp only [settle, hwaiting]; rfl
  | some use =>
      obtain ⟨o, value⟩ := use
      simp only [settle, hwaiting]
      rw [accept_congr r o value none true, accept_congr r o value none r.ended]
      cases r.accept o value <;> rfl

/-- The first argument of a line is taken in, and then the others. -/
theorem arguments_cons {rest : List String} {more : List Use} (hr : r.ended = false)
    (htext : Spelled text uses open?)
    (hrest : ∀ next : Reading, next.waiting = none → next.ended = false →
      ((next.await open?).arguments rest).bind job = (next.take more).bind job) :
    (r.arguments (text :: rest)).bind job = (r.settle.bind (·.take (uses ++ more))).bind job := by
  have hargument := argument_of_spelled hr htext
  simp only [arguments, hargument]
  cases hsettle : r.settle with
  | error e => rfl
  | ok settled =>
      simp only [Except.bind, take_append]
      cases htake : settled.take uses with
      | error e => rfl
      | ok next =>
          obtain ⟨hwaiting, hended⟩ := waiting_of_settle hsettle
          obtain ⟨hwaiting', hended'⟩ := waiting_of_take htake
          exact hrest next (hwaiting'.trans hwaiting) ((hended'.trans hended).trans hr)

/-- A line is read by taking in the uses that it spells, behind what waits. -/
theorem arguments_of_spells {args : List String} (h : Spells args uses) (hr : r.ended = false) :
    (r.arguments args).bind job = (r.settle.bind (·.take uses)).bind job := by
  induction h generalizing r with
  | nil =>
      simp only [arguments]
      cases r.settle <;> rfl
  | dashes =>
      simp only [arguments, argument, hr, Bool.false_eq_true, if_false]
      change ({ r with ended := true } : Reading).settle.bind job = (r.settle.bind .ok).bind job
      rw [settle_ended]
      cases r.settle <;> rfl
  | @closed text rest uses more htext hrest ih =>
      refine arguments_cons hr htext fun next hwaiting hended => ?_
      rw [await_none hwaiting, ih hended, settle_of_waiting hwaiting]
      rfl
  | @value text word rest uses more o htext hword hrest ih =>
      refine arguments_cons hr htext fun next hwaiting hended => ?_
      have hread : (next.await (some o)).argument word =
          .ok { next with waiting := some (o, some word) } := value_of_isValue hended hword rfl
      have hsettle : ({ next with waiting := some (o, some word) } : Reading).settle
          = next.accept o (some word) := by
        cases next
        cases hwaiting
        rfl
      have hmore := ih (r := { next with waiting := some (o, some word) }) hended
      rw [hsettle] at hmore
      simp only [arguments, hread, hmore, take_cons]

/-- Letters that are read without complaint are those of the grammar. -/
theorem exists_letters {cs : List Char} (h : r.letters cs = .ok r') :
    ∃ uses open?, Letters cs uses open? := by
  induction cs generalizing r with
  | nil => exact ⟨[], none, .nil⟩
  | cons c rest ih =>
      simp only [letters] at h
      cases hc : OptionName.ofShort? c with
      | none => simp [hc] at h
      | some o =>
          rw [hc] at h
          have hshort := OptionName.ofShort?_eq_some_iff.mp hc
          cases ho : o.valueWord? with
          | none =>
              simp only [ho, Option.isNone_none, if_true] at h
              cases hname : r.name o none with
              | error e => simp [hname] at h
              | ok next =>
                  rw [hname] at h
                  obtain ⟨uses, open?, hrest⟩ := ih h
                  exact ⟨_, _, .flag hshort ho hrest⟩
          | some shown =>
              have hsome : o.valueWord?.isSome := by rw [ho]; rfl
              by_cases hnil : rest = []
              · subst hnil
                exact ⟨_, _, .last hshort hsome⟩
              · by_cases hequals : rest.head? = some '='
                · obtain ⟨value, rfl⟩ : ∃ value, rest = '=' :: value := by
                    cases rest with
                    | nil => exact absurd rfl hnil
                    | cons d value => exact ⟨value, by simpa using hequals⟩
                  exact ⟨_, _, .assigned _ hshort hsome⟩
                · exact ⟨_, _, .joined _ hshort hsome hnil hequals⟩

/-- A name behind two dashes that is read without complaint is one of the grammar. -/
theorem exists_spelled_of_word {cs : List Char} (h : r.word cs = .ok r') :
    ∃ uses open?, Spelled (String.ofList ('-' :: '-' :: cs)) uses open? := by
  have hcs : cs.takeWhile (· != '=') ++ cs.dropWhile (· != '=') = cs :=
    List.takeWhile_append_dropWhile
  simp only [word] at h
  cases hlong : OptionName.ofLong? (String.ofList (cs.takeWhile (· != '='))) with
  | none => simp [hlong] at h
  | some o =>
      have hname : cs.takeWhile (· != '=') = o.long.toList := by
        rw [← OptionName.eq_long_of_ofLong? hlong, String.toList_ofList]
      rw [hlong] at h
      cases hdrop : cs.dropWhile (· != '=') with
      | nil =>
          have htext : String.ofList ('-' :: '-' :: cs) = "--" ++ o.long := by
            apply String.toList_inj.mp
            rw [← hcs, hname, hdrop]
            simp
          rw [htext]
          cases ho : o.valueWord? with
          | none => exact ⟨_, _, .flag ho⟩
          | some shown => exact ⟨_, _, .last (by rw [ho]; rfl)⟩
      | cons c value =>
          have hequals : c = '=' := by
            have hhead := List.head?_dropWhile_not (· != '=') cs
            simpa [hdrop] using hhead
          have htext : String.ofList ('-' :: '-' :: cs)
              = "--" ++ o.long ++ "=" ++ String.ofList value := by
            apply String.toList_inj.mp
            rw [← hcs, hname, hdrop, hequals]
            simp
          rw [htext]
          cases ho : o.valueWord? with
          | none => simp [hdrop, ho] at h
          | some shown => exact ⟨_, _, .assigned (by rw [ho]; rfl) _⟩

/-- An option that is waited for takes a value. -/
theorem isSome_of_letters {cs : List Char} (h : Letters cs uses (some o)) :
    o.valueWord?.isSome := by
  generalize hopen : some o = open? at h
  induction h with
  | nil | joined | assigned => cases hopen
  | flag _ _ _ ih => exact ih hopen
  | last _ ho =>
      cases hopen
      exact ho

theorem isSome_of_spelled (h : Spelled text uses (some o)) : o.valueWord?.isSome := by
  cases h with
  | last ho => exact ho
  | letters h => exact isSome_of_letters h

/-- An argument that is read without complaint ends the options, or is one of the grammar,
or is the value that is waited for. -/
theorem cases_of_argument (hr : r.ended = false) (h : r.argument text = .ok r') :
    (text = "--" ∧ r' = { r with ended := true }) ∨
    (∃ uses open?, Spelled text uses open?) ∨
    (IsValue text ∧ ∃ o, r.waiting = some (o, none) ∧
      r' = { r with waiting := some (o, some text) }) := by
  simp only [argument, hr, Bool.false_eq_true, if_false] at h
  split at h
  · rename_i htext
    cases h
    exact .inl ⟨String.toList_inj.mp htext, rfl⟩
  · rename_i cs htext
    obtain ⟨uses, open?, hspelled⟩ := exists_spelled_of_word h
    rw [← htext, String.ofList_toList] at hspelled
    exact .inr (.inl ⟨uses, open?, hspelled⟩)
  · rename_i c cs _ htext
    obtain ⟨uses, open?, hletters⟩ := exists_letters h
    have hspelled := Spelled.letters hletters
    rw [← htext, String.ofList_toList] at hspelled
    exact .inr (.inl ⟨uses, open?, hspelled⟩)
  · rename_i hword
    unfold value at h
    split at h
    · rename_i o hwaiting
      cases h
      exact .inr (.inr ⟨hword, o, hwaiting, rfl⟩)
    · cases h

/-- What a reading waits for: the value of an option that takes one, or no value. -/
inductive Awaits (r : Reading) : Option OptionName → Prop
  | nothing (h : ∀ o, r.waiting ≠ some (o, none)) : Awaits r none
  | value {o : OptionName} (h : r.waiting = some (o, none)) (ho : o.valueWord?.isSome) :
      Awaits r (some o)

/-- The arguments that can follow, with the value of an option in front if it is missing. -/
inductive Continues : Option OptionName → List String → Prop
  | options {args : List String} {uses : List Use} (h : Spells args uses) : Continues none args
  | value {o : OptionName} {word : String} {rest : List String} {uses : List Use}
      (hword : IsValue word) (h : Spells rest uses) :
      Continues (some o) (word :: rest)

/-- Only a reading that waits for no value can be settled. -/
theorem Awaits.eq_none_of_settle (h : r.Awaits open?) (hsettle : r.settle = .ok r') :
    open? = none := by
  cases h with
  | nothing => rfl
  | value hwaiting ho => simp [settle, hwaiting, accept, ho] at hsettle

/-- Behind an argument of the grammar, the reading waits for what the argument left open. -/
theorem Awaits.of_spelled {left? : Option OptionName} (h : r.Awaits open?) (hr : r.ended = false)
    (hspelled : Spelled text uses left?) (hread : r.argument text = .ok r') :
    open? = none ∧ r'.ended = false ∧ r'.Awaits left? := by
  rw [argument_of_spelled hr hspelled] at hread
  cases hsettle : r.settle with
  | error e =>
      rw [hsettle] at hread
      cases hread
  | ok settled =>
      simp only [hsettle, Except.bind] at hread
      cases htake : settled.take uses with
      | error e =>
          rw [htake] at hread
          cases hread
      | ok next =>
          simp only [htake, Except.map, Except.ok.injEq] at hread
          subst hread
          refine ⟨h.eq_none_of_settle hsettle,
            (waiting_of_take htake).2.trans ((waiting_of_settle hsettle).2.trans hr), ?_⟩
          cases left? with
          | none => exact .nothing (by nofun)
          | some o => exact .value rfl (isSome_of_spelled hspelled)

/-- A line that is read without complaint is one that can follow. -/
theorem continues_of_arguments {args : List String} (h : r.arguments args = .ok r')
    (hr : r.ended = false) (hopen : r.Awaits open?) : Continues open? args := by
  induction args generalizing r open? with
  | nil =>
      cases hopen.eq_none_of_settle h
      exact .options .nil
  | cons text rest ih =>
      simp only [arguments] at h
      cases hread : r.argument text with
      | error e => simp [hread] at h
      | ok next =>
          rw [hread] at h
          rcases cases_of_argument hr hread with
            ⟨rfl, rfl⟩ | ⟨uses, left?, hspelled⟩ | ⟨hword, o, hwaiting, rfl⟩
          · -- nothing may follow the dashes that end the options
            cases rest with
            | nil =>
                have hended : ({ r with ended := true } : Reading).Awaits open? := by
                  cases hopen with
                  | nothing hclosed => exact .nothing hclosed
                  | value hwaiting ho => exact .value hwaiting ho
                cases hended.eq_none_of_settle h
                exact .options .dashes
            | cons other more => simp [arguments, argument] at h
          · obtain ⟨rfl, hended, hnext⟩ := hopen.of_spelled hr hspelled hread
            cases ih h hended hnext with
            | options hrest => exact .options (.closed hspelled hrest)
            | value hword hrest => exact .options (.value hspelled hword hrest)
          · cases hopen with
            | nothing hclosed => exact absurd hwaiting (hclosed o)
            | value _ _ =>
                cases ih h hr (.nothing (by nofun)) with
                | options hrest => exact .value hword hrest

end Reading

open Reading

/-- A line is parsed by taking in the uses that it spells. -/
theorem parse_of_spells {args : List String} {uses : List Use} (h : Spells args uses) :
    parse args = (({} : Reading).take uses).bind Reading.job := by
  have harguments := arguments_of_spells (r := {}) h rfl
  rw [settle_of_waiting rfl] at harguments
  change _ = (({} : Reading).take uses).bind Reading.job at harguments
  rw [← harguments, parse]
  cases ({} : Reading).arguments args <;> rfl

/-- Every line that asks for a job is one of the grammar. -/
theorem exists_spells_of_parse {args : List String} {job : Job} (h : parse args = .ok job) :
    ∃ uses, Spells args uses := by
  cases harguments : ({} : Reading).arguments args with
  | error e => simp [parse, harguments] at h
  | ok r =>
      cases continues_of_arguments harguments rfl (.nothing (by nofun)) with
      | options hspells => exact ⟨_, hspells⟩

end CommandLine

end FirmwareUpdate
