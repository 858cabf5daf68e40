import Owsd.Basis.Calendar
import Owsd.Basis.Decimal
import Mathlib.Tactic.IntervalCases

/-!
The dates of HTTP headers (`http_timestr` of `ws_http_serve.c`), written with
`strftime` and read with `strptime` of glibc in the locale `"C"`.

`strptime` takes more than `strftime` writes: names in letters of any case
and in full, numbers with fewer digits and with spaces before them. What was
written it reads as it was (`strptime_strftime`).
-/

namespace Owsd.Http

theorem comma_ne : ','.toNat % 256 ≠ 0 := by decide

theorem space_ne : ' '.toNat % 256 ≠ 0 := by decide

theorem timeColon_ne : ':'.toNat % 256 ≠ 0 := by decide

def comma : CChar := .ofChar ',' comma_ne

def space : CChar := .ofChar ' ' space_ne

def timeColon : CChar := .ofChar ':' timeColon_ne

inductive Directive where
  | char (c : CChar)
  | a | d | b | Y | H | M | S | Z

def httpTimestr : List Directive :=
  [.a, .char comma, .char space, .d, .char space, .b, .char space, .Y, .char space,
    .H, .char timeColon, .M, .char timeColon, .S, .char space, .Z]

def weekdayNames : List CString :=
  ["Sunday", "Monday", "Tuesday", "Wednesday", "Thursday", "Friday", "Saturday"].map .ofString

def monthNames : List CString :=
  ["January", "February", "March", "April", "May", "June", "July", "August", "September",
    "October", "November", "December"].map .ofString

def abbreviation (names : List CString) (i : ℕ) : CString := (names.getD i []).take 3

/-! ### Writing -/

def Directive.write (tm : Tm) : Directive → CString
  | .char c => [c]
  | .a => abbreviation weekdayNames tm.wday
  | .d => padded 2 tm.mday
  | .b => abbreviation monthNames tm.mon
  | .Y => intText tm.year
  | .H => padded 2 tm.hour
  | .M => padded 2 tm.min
  | .S => padded 2 tm.sec
  | .Z => .ofString "GMT"

/-- `strftime`, for the fields of `gmtime`. -/
def strftime (format : List Directive) (tm : Tm) : CString := format.flatMap (Directive.write tm)

/-! ### Reading -/

/-- The loop of `get_number`: digits are read while there are some, up to a
count, and as long as another one leaves the number within the bound. -/
def readDigits (high : ℕ) : ℕ → ℕ → CString → ℕ × CString
  | 0, val, s => (val, s)
  | _ + 1, val, [] => (val, [])
  | n + 1, val, c :: s =>
      if val * 10 ≤ high ∧ isDigit c then readDigits high n (val * 10 + (c.val.val - 48)) s
      else (val, c :: s)

def getNumber (low high n : ℕ) (s : CString) : Option (ℕ × CString) :=
  match s.dropWhile isSpace with
  | [] => none
  | c :: s =>
      if isDigit c then
        let (val, s) := readDigits high (n - 1) (c.val.val - 48) s
        if val < low ∨ high < val then none else some (val, s)
      else none

def matchString (name s : CString) : Bool := strncasecmp name s name.length = 0

/-- The name that the text starts with, in full or short, with its number; the
longer one if both fit. -/
def getName (names : List CString) (s : CString) : Option (ℕ × CString) :=
  let i := names.findIdx fun name => matchString (name.take 3) s
  match names[i]? with
  | none => none
  | some name => some (i, s.drop (if matchString name s then name.length else 3))

def readNumber (low high n : ℕ) (set : ℕ → Tm) (s : CString) : Option (Tm × CString) :=
  (getNumber low high n s).map fun r => (set r.1, r.2)

/-- One directive of the format. The time zone is read and not looked at. -/
def Directive.read (tm : Tm) (s : CString) : Directive → Option (Tm × CString)
  | .char c =>
      if isSpace c then some (tm, s.dropWhile isSpace)
      else
        match s with
        | [] => none
        | c' :: s => if c' = c then some (tm, s) else none
  | .a => (getName weekdayNames s).map fun r => ({ tm with wday := r.1 }, r.2)
  | .d => readNumber 1 31 2 (fun val => { tm with mday := val }) s
  | .b => (getName monthNames s).map fun r => ({ tm with mon := r.1 }, r.2)
  | .Y => readNumber 0 9999 4 (fun val => { tm with year := val }) s
  | .H => readNumber 0 23 2 (fun val => { tm with hour := val }) s
  | .M => readNumber 0 59 2 (fun val => { tm with min := val }) s
  | .S => readNumber 0 61 2 (fun val => { tm with sec := val }) s
  | .Z => some (tm, (s.dropWhile isSpace).dropWhile fun c => !isSpace c)

/-- `strptime`: the fields, and where reading ended. -/
def strptime : List Directive → Tm → CString → Option (Tm × CString)
  | [], tm, s => some (tm, s)
  | directive :: format, tm, s =>
      match directive.read tm s with
      | none => none
      | some (tm, s) => strptime format tm s

/-- A zeroed `struct tm`. -/
def zeroTm : Tm := ⟨0, 0, 0, 0, 0, 1900, 0⟩

/-! ### Numbers -/

theorem padded_succ (w n : ℕ) : padded (w + 1) n = digit (n / 10 ^ w) :: padded w n := by
  induction w generalizing n with
  | zero => simp [padded]
  | succ w ih =>
      have hdiv : n / 10 / 10 ^ w = n / 10 ^ (w + 1) := by
        rw [Nat.div_div_eq_div_mul, Nat.pow_succ']
      rw [padded, ih, hdiv, List.cons_append]
      rfl

theorem readDigits_padded {high w n val : ℕ} (rest : CString)
    (h : val * 10 ^ w + n % 10 ^ w ≤ high) :
    readDigits high w val (padded w n ++ rest) = (val * 10 ^ w + n % 10 ^ w, rest) := by
  induction w generalizing val with
  | zero => simp [readDigits, padded, Nat.mod_one]
  | succ w ih =>
      have hdigit := digit_val (n / 10 ^ w)
      have hsplit : n % 10 ^ (w + 1) = n / 10 ^ w % 10 * 10 ^ w + n % 10 ^ w := by
        rw [Nat.pow_succ, Nat.mod_mul, Nat.add_comm, Nat.mul_comm]
      have hval : (val * 10 + n / 10 ^ w % 10) * 10 ^ w + n % 10 ^ w =
          val * 10 ^ (w + 1) + n % 10 ^ (w + 1) := by
        rw [hsplit]
        ring
      have hle : val * 10 ≤ high := by
        calc val * 10 ≤ val * 10 * 10 ^ w := Nat.le_mul_of_pos_right _ (Nat.pow_pos (by omega))
          _ = val * 10 ^ (w + 1) := by ring
          _ ≤ high := by omega
      rw [padded_succ, List.cons_append, readDigits, if_pos ⟨hle, isDigit_digit _⟩, hdigit,
        Nat.add_sub_cancel_left, ih (by rw [hval]; exact h), hval]

theorem getNumber_padded {low high w n : ℕ} (hlow : low ≤ n) (hhigh : n ≤ high)
    (hwidth : n < 10 ^ (w + 1)) (rest : CString) :
    getNumber low high (w + 1) (padded (w + 1) n ++ rest) = some (n, rest) := by
  have hdigit := digit_val (n / 10 ^ w)
  have hfirst : n / 10 ^ w < 10 := by
    rw [Nat.div_lt_iff_lt_mul (Nat.pow_pos (by omega)), ← Nat.pow_succ']
    exact hwidth
  have hsplit : n / 10 ^ w * 10 ^ w + n % 10 ^ w = n := Nat.div_add_mod' n (10 ^ w)
  have hspace : (padded (w + 1) n ++ rest).dropWhile isSpace =
      digit (n / 10 ^ w) :: (padded w n ++ rest) := by
    rw [padded_succ, List.cons_append, List.dropWhile_cons_of_neg]
    simp [not_isSpace_of_isDigit (isDigit_digit _)]
  have hread : readDigits high (w + 1 - 1) ((digit (n / 10 ^ w)).val.val - 48)
      (padded w n ++ rest) = (n, rest) := by
    rw [hdigit, Nat.add_sub_cancel_left, Nat.mod_eq_of_lt hfirst, Nat.add_sub_cancel,
      readDigits_padded rest (by omega), hsplit]
  rw [getNumber, hspace]
  simp only [isDigit_digit, if_true, hread]
  rw [if_neg (by omega)]

theorem readNumber_padded {low high w n : ℕ} {set : ℕ → Tm} (hlow : low ≤ n) (hhigh : n ≤ high)
    (hwidth : n < 10 ^ (w + 1)) (rest : CString) :
    readNumber low high (w + 1) set (padded (w + 1) n ++ rest) = some (set n, rest) := by
  rw [readNumber, getNumber_padded hlow hhigh hwidth]
  rfl

theorem intText_year {y : Int} (hlow : 1000 ≤ y) (hhigh : y ≤ 9999) :
    intText y = padded 4 y.natAbs := by
  have hlog : Nat.log 10 y.natAbs = 3 := by
    rw [Nat.log_eq_iff (by omega)]
    omega
  rw [intText, if_neg (by omega), natText, hlog]

/-! ### Names -/

theorem getName_weekday {i : ℕ} (hi : i < 7) (rest : CString) :
    getName weekdayNames (abbreviation weekdayNames i ++ comma :: rest) =
      some (i, comma :: rest) := by
  interval_cases i <;> rfl

theorem getName_month {i : ℕ} (hi : i < 12) (rest : CString) :
    getName monthNames (abbreviation monthNames i ++ space :: rest) = some (i, space :: rest) := by
  interval_cases i <;> rfl

/-! ### Round trip -/

theorem strptime_cons {directive : Directive} {format : List Directive} {tm tm' : Tm}
    {s s' : CString} (h : directive.read tm s = some (tm', s')) :
    strptime (directive :: format) tm s = strptime format tm' s' := by
  rw [strptime, h]

theorem read_space {tm : Tm} {s : CString} (h : ∀ c ∈ s.head?, isSpace c = false) :
    (Directive.char space).read tm (space :: s) = some (tm, s) := by
  have hspace : isSpace space = true := rfl
  rw [Directive.read, if_pos hspace, List.dropWhile_cons_of_pos hspace]
  cases s with
  | nil => rfl
  | cons c s => rw [List.dropWhile_cons_of_neg (by simp [h c rfl])]

theorem read_char {tm : Tm} {c : CChar} (hc : isSpace c = false) (s : CString) :
    (Directive.char c).read tm (c :: s) = some (tm, s) := by
  simp [Directive.read, hc]

theorem head_padded {w n : ℕ} {rest : CString} :
    ∀ c ∈ (padded (w + 1) n ++ rest).head?, isSpace c = false := by
  intro c hc
  rw [padded_succ, List.cons_append, List.head?_cons] at hc
  cases hc
  exact not_isSpace_of_isDigit (isDigit_digit _)

theorem head_month {i : ℕ} (hi : i < 12) {rest : CString} :
    ∀ c ∈ (abbreviation monthNames i ++ rest).head?, isSpace c = false := by
  intro c hc
  interval_cases i <;> cases hc <;> rfl

section
variable {tm : Tm} {n : ℕ} (rest : CString)

theorem read_a (h : n < 7) :
    Directive.a.read tm (abbreviation weekdayNames n ++ comma :: rest) =
      some ({ tm with wday := n }, comma :: rest) := by
  rw [Directive.read, getName_weekday h]
  rfl

theorem read_b (h : n < 12) :
    Directive.b.read tm (abbreviation monthNames n ++ space :: rest) =
      some ({ tm with mon := n }, space :: rest) := by
  rw [Directive.read, getName_month h]
  rfl

theorem read_d (hlow : 1 ≤ n) (hhigh : n ≤ 31) :
    Directive.d.read tm (padded 2 n ++ rest) = some ({ tm with mday := n }, rest) :=
  @readNumber_padded 1 31 1 n (fun val => { tm with mday := val }) hlow hhigh (by omega) rest

theorem read_Y (h : n < 10000) :
    Directive.Y.read tm (padded 4 n ++ rest) = some ({ tm with year := n }, rest) :=
  @readNumber_padded 0 9999 3 n (fun val => { tm with year := val })
    (Nat.zero_le n) (by omega) h rest

theorem read_H (h : n < 24) :
    Directive.H.read tm (padded 2 n ++ rest) = some ({ tm with hour := n }, rest) :=
  @readNumber_padded 0 23 1 n (fun val => { tm with hour := val })
    (Nat.zero_le n) (by omega) (by omega) rest

theorem read_M (h : n < 60) :
    Directive.M.read tm (padded 2 n ++ rest) = some ({ tm with min := n }, rest) :=
  @readNumber_padded 0 59 1 n (fun val => { tm with min := val })
    (Nat.zero_le n) (by omega) (by omega) rest

theorem read_S (h : n < 60) :
    Directive.S.read tm (padded 2 n ++ rest) = some ({ tm with sec := n }, rest) :=
  @readNumber_padded 0 61 1 n (fun val => { tm with sec := val })
    (Nat.zero_le n) (by omega) (by omega) rest

end

/-- The fields are within the ranges of the format. -/
structure Printable (tm : Tm) : Prop where
  sec : tm.sec < 60
  min : tm.min < 60
  hour : tm.hour < 24
  mday : 1 ≤ tm.mday ∧ tm.mday ≤ 31
  mon : tm.mon < 12
  year : 1000 ≤ tm.year ∧ tm.year ≤ 9999
  wday : tm.wday < 7

theorem strftime_eq {tm : Tm} (h : Printable tm) :
    strftime httpTimestr tm = abbreviation weekdayNames tm.wday ++ comma :: space ::
      (padded 2 tm.mday ++ space :: (abbreviation monthNames tm.mon ++ space ::
        (padded 4 tm.year.natAbs ++ space :: (padded 2 tm.hour ++ timeColon ::
          (padded 2 tm.min ++ timeColon :: (padded 2 tm.sec ++ space ::
            CString.ofString "GMT")))))) := by
  simp [strftime, httpTimestr, Directive.write, intText_year h.year.1 h.year.2]

theorem strptime_strftime {tm : Tm} (h : Printable tm) :
    strptime httpTimestr zeroTm (strftime httpTimestr tm) = some (tm, []) := by
  have hcomma : isSpace comma = false := rfl
  have hcolon : isSpace timeColon = false := rfl
  obtain ⟨hlow, hhigh⟩ := h.year
  have hyear : ((tm.year.natAbs : ℕ) : Int) = tm.year := by omega
  rw [strftime_eq h, httpTimestr]
  rw [strptime_cons (read_a _ h.wday), strptime_cons (read_char hcomma _)]
  rw [strptime_cons (read_space head_padded), strptime_cons (read_d _ h.mday.1 h.mday.2)]
  rw [strptime_cons (read_space (head_month h.mon)), strptime_cons (read_b _ h.mon)]
  rw [strptime_cons (read_space head_padded), strptime_cons (read_Y _ (by omega))]
  rw [strptime_cons (read_space head_padded), strptime_cons (read_H _ h.hour)]
  rw [strptime_cons (read_char hcolon _), strptime_cons (read_M _ h.min)]
  rw [strptime_cons (read_char hcolon _), strptime_cons (read_S _ h.sec)]
  -- The name of the time zone is left, which is passed over.
  rw [hyear]
  rfl

/-- The times that can be written with a year of four digits. -/
def Datable (t : Int) : Prop := -30610224000 ≤ t ∧ t < 253402300800

theorem printable_gmtime {t : Int} (h : Datable t) : Printable (gmtime t) := by
  obtain ⟨hsec, hmin, hhour, hmday, hmon, hwday⟩ := gmtime_range t
  exact ⟨hsec, hmin, hhour, hmday, hmon, gmtime_year h.1 h.2, hwday⟩

end Owsd.Http
