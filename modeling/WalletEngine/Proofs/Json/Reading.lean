import WalletEngine.Json.Record
import WalletEngine.Proofs.Steps

/-! # Texts that a reader takes

A reader takes a text if, with any blanks in front of it and with anything behind it that does not
continue a number, it answers with one value and stops where the text ends. It refuses a text if it
always fails on it. Both say what happens inside any larger text, so they can be put together along
the structure of the larger text.
-/

namespace WalletEngine.Json.Reader
open Steps

variable {α β : Type}

/-! ## Blanks and what follows a value -/

/-- Nothing that would continue a number. -/
def Stops (rest : List Symbol) : Prop :=
  ∀ s ∈ rest.head?, s.isDigit = false ∧ s ≠ .char '.' ∧ s ≠ .char 'e' ∧ s ≠ .char 'E'

theorem stops_nil : Stops [] := by
  intro s hs
  simp at hs

theorem stops_cons {c : Char} (rest : List Symbol)
    (hc : c.isDigit = false ∧ c ≠ '.' ∧ c ≠ 'e' ∧ c ≠ 'E') : Stops (.char c :: rest) := by
  intro s hs
  obtain rfl : .char c = s := by simpa using hs
  simpa [Symbol.isDigit] using hc

/-- Blanks in front of a value. -/
def AllBlank (blanks : List Symbol) : Prop := ∀ s ∈ blanks, isSpace s = true

theorem allBlank_nil : AllBlank [] := by
  intro s hs
  simp at hs

theorem AllBlank.cons {c : Char} {blanks : List Symbol} (hc : isSpace (.char c) = true)
    (h : AllBlank blanks) : AllBlank (.char c :: blanks) := by
  intro s hs
  rcases List.mem_cons.mp hs with rfl | hs
  · exact hc
  · exact h s hs

theorem AllBlank.dropWhile {blanks : List Symbol} (h : AllBlank blanks) {c : Char}
    (hc : isSpace (.char c) = false) (rest : List Symbol) :
    (blanks ++ .char c :: rest).dropWhile isSpace = .char c :: rest := by
  rw [List.dropWhile_append_of_pos h, List.dropWhile_cons_of_neg (by simp [hc])]

theorem peekSolid?_blanks {blanks : List Symbol} (h : AllBlank blanks) {c : Char}
    (hc : isSpace (.char c) = false) (rest : List Symbol) :
    peekSolid? (blanks ++ .char c :: rest) = .ok (some (.char c), .char c :: rest) := by
  simp only [peekSolid?, h.dropWhile hc, List.head?_cons]

theorem peekSolid?_char {c : Char} (hc : isSpace (.char c) = false) (rest : List Symbol) :
    peekSolid? (.char c :: rest) = .ok (some (.char c), .char c :: rest) :=
  peekSolid?_blanks allBlank_nil hc rest

theorem skip_cons (s : Symbol) (rest : List Symbol) : skip (s :: rest) = .ok ((), rest) := rfl

theorem peek?_apply (rest : List Symbol) : peek? rest = .ok (rest.head?, rest) := rfl

theorem peek?_cons (s : Symbol) (rest : List Symbol) :
    peek? (s :: rest) = .ok (some s, s :: rest) := rfl

/-! ## Taking and refusing -/

/-- The reader takes the text and answers with the value. -/
def Takes (read : Reader α) (text : List Char) (a : α) : Prop :=
  ∀ blanks rest, AllBlank blanks → Stops rest →
    read (blanks ++ (text.map .char ++ rest)) = .ok (a, rest)

/-- The reader fails on the text. -/
def Refuses (read : Reader α) (text : List Char) : Prop :=
  ∀ blanks rest, AllBlank blanks → Stops rest →
    ∃ fault, read (blanks ++ (text.map .char ++ rest)) = .error fault

theorem Takes.map {read : Reader α} {text : List Char} {a : α} (h : Takes read text a)
    (f : α → β) : Takes (f <$> read) text (f a) := by
  intro blanks rest hblanks hrest
  rw [map_apply, h blanks rest hblanks hrest]

theorem Refuses.map {read : Reader α} {text : List Char} (h : Refuses read text)
    (f : α → β) : Refuses (f <$> read) text := by
  intro blanks rest hblanks hrest
  obtain ⟨fault, hfault⟩ := h blanks rest hblanks hrest
  exact ⟨fault, by rw [map_apply, hfault]⟩

theorem Takes.bind {read : Reader α} {next : α → Reader β} {text : List Char} {a : α} {b : β}
    (h : Takes read text a) (hnext : ∀ rest, next a rest = .ok (b, rest)) :
    Takes (read >>= next) text b := by
  intro blanks rest hblanks hrest
  rw [bind_of_ok (h blanks rest hblanks hrest), hnext]

/-- Blanks in front of a text that is taken may be counted to the text. -/
theorem Takes.blank {read : Reader α} {text : List Char} {a : α} (h : Takes read text a)
    {c : Char} (hc : isSpace (.char c) = true) : Takes read (c :: text) a := by
  intro blanks rest hblanks hrest
  have hmore : AllBlank (blanks ++ [.char c]) := by
    intro s hs
    rcases List.mem_append.mp hs with hs | hs
    · exact hblanks s hs
    · exact (List.mem_singleton.mp hs) ▸ hc
  simpa using h _ rest hmore hrest

theorem Refuses.blank {read : Reader α} {text : List Char} (h : Refuses read text)
    {c : Char} (hc : isSpace (.char c) = true) : Refuses read (c :: text) := by
  intro blanks rest hblanks hrest
  have hmore : AllBlank (blanks ++ [.char c]) := by
    intro s hs
    rcases List.mem_append.mp hs with hs | hs
    · exact hblanks s hs
    · exact (List.mem_singleton.mp hs) ▸ hc
  simpa using h _ rest hmore hrest

/-! ## Behind a colon -/

theorem colon_apply {blanks : List Symbol} (h : AllBlank blanks) (rest : List Symbol) :
    colon (blanks ++ .char ':' :: rest) = .ok ((), rest) := by
  rw [colon, bind_of_ok (peekSolid?_blanks h (by decide) rest)]
  rfl

theorem Takes.afterColon {read : Reader α} {text : List Char} {a : α} (h : Takes read text a) :
    Takes (do colon; read) (':' :: text) a := by
  intro blanks rest hblanks hrest
  rw [List.map_cons, List.cons_append, bind_of_ok (colon_apply hblanks _)]
  exact h [] rest allBlank_nil hrest

theorem Refuses.afterColon {read : Reader α} {text : List Char} (h : Refuses read text) :
    Refuses (do colon; read) (':' :: text) := by
  intro blanks rest hblanks hrest
  rw [List.map_cons, List.cons_append, bind_of_ok (colon_apply hblanks _)]
  exact h [] rest allBlank_nil hrest

end WalletEngine.Json.Reader
