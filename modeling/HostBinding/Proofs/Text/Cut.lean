import HostBinding.HostType
import HostBinding.Text.Identifier
import HostBinding.Text.Line

/-!
# Taking texts apart

Generated texts are written without looking back, so to know that two of them come from the same data they
have to be taken apart again. Every cut is made in front of a character that the part before it cannot
hold: a number ends where no digit follows, and a host type or a list of typed names holds no comma, no
closing parenthesis and no line break.
-/

namespace HostBinding.Text

variable {p : Char → Bool} {a b r s : String}

def Within (p : Char → Bool) (text : String) : Prop :=
  ∀ c ∈ text.toList, p c = true

def StartsOutside (p : Char → Bool) (text : String) : Prop :=
  ∃ c rest, text.toList = c :: rest ∧ p c = false

theorem within_of_all (h : a.toList.all p = true) : Within p a :=
  fun c hc => List.all_eq_true.mp h c hc

theorem Within.append (ha : Within p a) (hb : Within p b) : Within p (a ++ b) := by
  intro c hc
  rw [String.toList_append, List.mem_append] at hc
  exact hc.elim (ha c) (hb c)

theorem Within.mono {q : Char → Bool} (ha : Within p a) (h : ∀ c, p c = true → q c = true) :
    Within q a :=
  fun c hc => h c (ha c hc)

theorem StartsOutside.append (ha : StartsOutside p a) (b : String) : StartsOutside p (a ++ b) := by
  obtain ⟨c, rest, htext, hc⟩ := ha
  exact ⟨c, rest ++ b.toList, by rw [String.toList_append, htext, List.cons_append], hc⟩

theorem takeWhile_toList_append (ha : Within p a) (hr : StartsOutside p r) :
    (a ++ r).toList.takeWhile p = a.toList := by
  obtain ⟨c, rest, htext, hc⟩ := hr
  rw [String.toList_append, List.takeWhile_append_of_pos ha, htext, List.takeWhile_cons, hc]
  simp

/-- What two equal texts start with is equal when it ends at the same kind of character in both. -/
theorem cut (ha : Within p a) (hb : Within p b) (hr : StartsOutside p r) (hs : StartsOutside p s)
    (h : a ++ r = b ++ s) : a = b ∧ r = s := by
  have hab : a = b := by
    apply String.toList_injective
    rw [← takeWhile_toList_append ha hr, ← takeWhile_toList_append hb hs, h]
  subst hab
  exact ⟨rfl, (String.append_right_inj a).mp h⟩

theorem ne_of_startsOutside (ha : Within p a) (hne : a ≠ "") (hs : StartsOutside p s) :
    a ++ r ≠ s := by
  intro h
  obtain ⟨c, rest, htext, hc⟩ := hs
  have hlist := congrArg String.toList h
  rw [String.toList_append, htext] at hlist
  cases hchars : a.toList with
  | nil => exact hne (String.toList_eq_nil_iff.mp hchars)
  | cons d tail =>
    rw [hchars, List.cons_append] at hlist
    have hd := ha d (hchars ▸ List.mem_cons_self)
    rw [(List.cons.inj hlist).1, hc] at hd
    cases hd

/-- A parenthesized list can be read back when its items hold neither commas nor parentheses. -/
theorem cut_intercalate (hcomma : p ',' = false) (hclose : p ')' = false) {xs ys : List String}
    (hxs : ∀ x ∈ xs, Within p x ∧ x ≠ "") (hys : ∀ y ∈ ys, Within p y ∧ y ≠ "")
    (h : ", ".intercalate xs ++ (")" ++ r) = ", ".intercalate ys ++ (")" ++ s)) :
    xs = ys ∧ r = s := by
  have hcomma' : StartsOutside p ", " := ⟨',', [' '], rfl, hcomma⟩
  have hclose' : StartsOutside p ")" := ⟨')', [], rfl, hclose⟩
  -- What follows the first item of a list starts with a comma or with the parenthesis.
  have hrest : ∀ (x : String) (rest : List String) (t : String), ∃ after, StartsOutside p after ∧
      ", ".intercalate (x :: rest) ++ (")" ++ t) = x ++ after ∧
      after = if rest = [] then ")" ++ t else ", " ++ (", ".intercalate rest ++ (")" ++ t)) := by
    intro x rest t
    cases rest with
    | nil => exact ⟨_, hclose'.append t, by simp, by simp⟩
    | cons second rest =>
      refine ⟨", " ++ (", ".intercalate (second :: rest) ++ (")" ++ t)), hcomma'.append _, ?_, by simp⟩
      rw [String.intercalate_cons_cons]
      simp only [String.append_assoc]
  induction xs generalizing ys with
  | nil =>
    cases ys with
    | nil => exact ⟨rfl, by simpa [String.append_right_inj] using h⟩
    | cons y ys =>
      obtain ⟨after, -, heq, -⟩ := hrest y ys s
      rw [heq, String.intercalate_nil, String.empty_append] at h
      obtain ⟨hy, hne⟩ := hys y List.mem_cons_self
      exact absurd h.symm (ne_of_startsOutside hy hne (hclose'.append r))
  | cons x xs ih =>
    obtain ⟨after, hafter, heq, hform⟩ := hrest x xs r
    obtain ⟨hx, hne⟩ := hxs x List.mem_cons_self
    rw [heq] at h
    cases ys with
    | nil =>
      rw [String.intercalate_nil, String.empty_append] at h
      exact absurd h (ne_of_startsOutside hx hne (hclose'.append s))
    | cons y ys =>
      obtain ⟨after', hafter', heq', hform'⟩ := hrest y ys s
      rw [heq'] at h
      obtain ⟨rfl, hsame⟩ := cut hx (hys y List.mem_cons_self).1 hafter hafter' h
      rw [hform, hform'] at hsame
      by_cases hempty : xs = [] <;> by_cases hempty' : ys = [] <;>
        simp only [hempty, hempty', if_true, if_false] at hsame
      · exact ⟨by rw [hempty, hempty'], (String.append_right_inj _).mp hsame⟩
      · exact absurd (congrArg (·.toList.head?) hsame) (by simp)
      · exact absurd (congrArg (·.toList.head?) hsame) (by simp)
      · obtain ⟨hlist, hend⟩ := ih (fun z hz => hxs z (List.mem_cons_of_mem _ hz))
          (fun z hz => hys z (List.mem_cons_of_mem _ hz)) ((String.append_right_inj _).mp hsame)
        exact ⟨by rw [hlist], hend⟩

/-! ### Lines -/

theorem unlines_append (xs ys : List String) : unlines (xs ++ ys) = unlines xs ++ unlines ys := by
  apply String.toList_injective
  simp [unlines]

theorem unlines_cons (x : String) (xs : List String) :
    unlines (x :: xs) = x ++ ("\n" ++ unlines xs) := by
  simp [unlines, String.append_assoc]

/-! ### Numbers -/

theorem within_toString (n : Nat) : Within Char.isDigit (toString n) := by
  intro c hc
  rw [Nat.toString_eq_repr, Nat.toList_repr] at hc
  exact Nat.isDigit_of_mem_toDigits (by decide) (by decide) hc

theorem toString_nat_inj {m n : Nat} (h : toString m = toString n) : m = n := by
  rw [Nat.toString_eq_repr, Nat.toString_eq_repr] at h
  rw [← Nat.ofDigitChars_ten_toDigits (n := m), ← Nat.toList_repr, h, Nat.toList_repr,
    Nat.ofDigitChars_ten_toDigits]

theorem cut_toString {m n : Nat} (hr : StartsOutside Char.isDigit r)
    (hs : StartsOutside Char.isDigit s) (h : toString m ++ r = toString n ++ s) : m = n ∧ r = s := by
  obtain ⟨hnumber, hrest⟩ := cut (within_toString m) (within_toString n) hr hs h
  exact ⟨toString_nat_inj hnumber, hrest⟩

/-! ### Host types -/

theorem within_sanitize (name : String) : Within isWordChar (sanitize name) := by
  have hstem : ∀ c ∈ (flattenScopes name).toList.map (fun c => if isWordChar c then c else '_'),
      isWordChar c = true := by
    intro c hc
    obtain ⟨d, -, rfl⟩ := List.mem_map.mp hc
    split
    · assumption
    · rfl
  intro c hc
  simp only [sanitize, String.toList_ofList] at hc
  split at hc
  · exact hstem c hc
  · rcases List.mem_cons.mp hc with rfl | hc
    · rfl
    · exact hstem c hc

def isTypeChar (c : Char) : Bool :=
  isWordChar c || ['*', ' ', '[', ']', ';'].contains c

theorem isTypeChar_of_isWordChar {c : Char} (h : isWordChar c = true) : isTypeChar c = true := by
  simp [isTypeChar, h]

theorem isTypeChar_of_isDigit {c : Char} (h : c.isDigit = true) : isTypeChar c = true := by
  simp [isTypeChar, isWordChar, Char.isAlphanum, h]

end HostBinding.Text

namespace HostBinding

open Text

theorem Primitive.within_hostName (kind : Primitive) : Within isTypeChar kind.hostName := by
  have hcheck : kind.hostName.toList.all isTypeChar = true := by
    cases kind with
    | bool => decide
    | integral kind => cases kind <;> decide
    | floating kind => cases kind <;> decide
  exact List.all_eq_true.mp hcheck

theorem CType.within_spell_of_host? {proxyName? : String → Option String}
    (hnames : ∀ name hostName, proxyName? name = some hostName → Within isTypeChar hostName)
    {type : CType} {host : HostType} (hhost : type.host? proxyName? = some host) :
    Within isTypeChar host.spell := by
  have hpointer : ∀ target isConst, Within isTypeChar target.spell →
      Within isTypeChar (HostType.pointer target isConst).spell := by
    rintro target (_ | _) htarget
    · exact Within.append (a := "*mut ") (within_of_all (by decide)) htarget
    · exact Within.append (a := "*const ") (within_of_all (by decide)) htarget
  induction type generalizing host with
  | void => simp [CType.host?] at hhost
  | reference => simp [CType.host?] at hhost
  | primitive kind spelling =>
    cases hhost
    exact kind.within_hostName
  | named name =>
    obtain ⟨hostName, hname, rfl⟩ := Option.map_eq_some_iff.mp hhost
    exact hnames name hostName hname
  | array element length ih =>
    obtain ⟨inner, hinner, rfl⟩ := Option.map_eq_some_iff.mp hhost
    have hlength := (within_toString length.toNat).mono fun _ => isTypeChar_of_isDigit
    have hopen : Within isTypeChar "[" := within_of_all (by decide)
    have hmiddle : Within isTypeChar "; " := within_of_all (by decide)
    have hclose : Within isTypeChar "]" := within_of_all (by decide)
    exact (((hopen.append (ih hinner)).append hmiddle).append hlength).append hclose
  | pointer target isConst ih =>
    have hdeep (h : (target.host? proxyName?).map (.pointer · isConst) = some host) :
        Within isTypeChar host.spell := by
      obtain ⟨inner, hinner, rfl⟩ := Option.map_eq_some_iff.mp h
      exact hpointer _ _ (ih hinner)
    cases target with
    | void =>
      cases hhost
      exact hpointer _ _ (within_of_all (by decide))
    | named name =>
      cases hhost
      refine hpointer _ _ ?_
      cases hname : proxyName? name with
      | none => exact (within_of_all (by decide) : Within isTypeChar "c_void")
      | some hostName => exact hnames name hostName hname
    | reference => simp [CType.host?] at hhost
    | primitive => exact hdeep hhost
    | pointer => exact hdeep hhost
    | array => exact hdeep hhost

end HostBinding
