import Workload.Shell.Programs.Basic

/-!
# Programs for bytes

Bytes are shown as numbers, or as digits of base 64.
-/

namespace Workload.Shell.Programs

/-- Shows bytes as numbers or characters. -/
def od (args : List String) (s : State) : State :=
  withOptions "od" { letters := "A:t:cbxdovN:j:w:an" } 1 args s fun o s =>
    let (texts, s) := inputs "od" 1 o.operands s
    let bytes := String.join (texts.map Prod.snd) |>.toList
    let bytes := bytes.drop (((o.value? 'j').bind natural?).getD 0)
    let bytes := match (o.value? 'N').bind natural? with
      | some n => bytes.take n
      | none => bytes
    let base := (o.value? 'A').getD "o"
    let octal := fun (width n : Nat) =>
      let ds := Nat.toDigits 8 n
      String.ofList (List.replicate (width - ds.length) '0' ++ ds)
    let hex := fun (width n : Nat) =>
      let ds := Nat.toDigits 16 n
      String.ofList (List.replicate (width - ds.length) '0' ++ ds)
    let address := fun (n : Nat) => match base with
      | "n" => ""
      | "d" => let t := toString n; String.ofList (List.replicate (7 - t.length) '0') ++ t
      | "x" => hex 6 n
      | _ => octal 7 n
    let kind := if o.has 'c' then "c" else if o.has 'b' then "o1" else if o.has 'x' then "x2" else (o.value? 't').getD "o2"
    let size := if kind = "c" || kind = "a" then 1 else ((Text.natOf? 10 (kind.toList.drop 1)).getD 2)
    let cell := fun (cs : List Char) =>
      let n := cs.reverse.foldl (fun n c => 256 * n + c.toNat) 0
      match kind.toList.head? with
      | some 'c' =>
        let t := match cs.headD '\x00' with
          | '\x00' => "\\0"
          | '\n' => "\\n"
          | '\t' => "\\t"
          | '\x0d' => "\\r"
          | '\x07' => "\\a"
          | '\x08' => "\\b"
          | '\x0b' => "\\v"
          | '\x0c' => "\\f"
          | c => if ' ' ≤ c && c ≤ '~' then c.toString else octal 3 c.toNat
        String.ofList (List.replicate (4 - t.length) ' ') ++ t
      | some 'x' => " " ++ hex (2 * size) n
      | some 'd' | some 'u' =>
        let width := if size = 1 then 4 else if size = 2 then 7 else if size = 4 then 12 else 21
        let width := if kind.startsWith "u" && size ≠ 1 then width - 1 else width
        let v : Int := if kind.startsWith "d" && Nat.pow 2 (8 * size - 1) ≤ n then (n : Int) - (Nat.pow 2 (8 * size) : Nat) else n
        let t := toString v
        String.ofList (List.replicate (width - t.length) ' ') ++ t
      | _ => " " ++ octal (if size = 1 then 3 else if size = 2 then 6 else 11) n
    let rec rows : Nat → Nat → List Char → List String
      | 0, n, _ => [address n]
      | fuel + 1, n, cs =>
        if cs.isEmpty then (if base = "n" then [] else [address n])
        else
          let row := cs.take 16
          let count := (row.length + size - 1) / size
          (address n ++ String.join ((List.range count).map fun i => cell ((row.drop (i * size)).take size))) ::
            rows fuel (n + row.length) (cs.drop 16)
    s.print (ofLines (rows (bytes.length + 1) 0 bytes))

/-- The digits of base sixty-four. -/
def base64Digits : List Char :=
  "ABCDEFGHIJKLMNOPQRSTUVWXYZabcdefghijklmnopqrstuvwxyz0123456789+/".toList

def base64 (args : List String) (s : State) : State :=
  withOptions "base64" { letters := "dw:i", long := [("decode", 'd'), ("wrap", 'w')] } 1 args s fun o s =>
    let (texts, s) := inputs "base64" 1 o.operands s
    let bytes := (String.join (texts.map Prod.snd)).toList
    if o.has 'd' then
      let ds := bytes.filter fun c => c ≠ '\n'
      let rec decode : Nat → List Char → List Char
        | 0, _ => []
        | n + 1, cs =>
          let four := cs.take 4
          if four.length < 2 then []
          else
            let body := four.filter (· ≠ '=')
            let v := (four.map fun c => if c = '=' then 0 else base64Digits.idxOf c).foldl (fun v d => 64 * v + d) 0
            ([v / 65536, v / 256 % 256, v % 256].take (body.length - 1)).map Char.ofNat ++ decode n (cs.drop 4)
      if ds.all fun c => c = '=' || base64Digits.contains c then s.print (String.ofList (decode (ds.length + 1) ds))
      else (s.complain "base64: invalid input").finish 1
    else
      let rec encode : Nat → List Char → List Char
        | 0, _ => []
        | n + 1, cs =>
          let three := cs.take 3
          if three.isEmpty then []
          else
            let v := ((three ++ List.replicate (3 - three.length) '\x00').map Char.toNat).foldl (fun v d => 256 * v + d) 0
            let ds := [v / 262144, v / 4096 % 64, v / 64 % 64, v % 64].map fun d => base64Digits.getD d '='
            (ds.take (three.length + 1) ++ List.replicate (3 - three.length) '=') ++ encode n (cs.drop 3)
      let text := encode (bytes.length + 1) bytes
      let width := ((o.value? 'w').bind natural?).getD 76
      let rec wrap : Nat → List Char → List Char
        | 0, cs => cs
        | n + 1, cs => if cs.isEmpty then [] else cs.take width ++ '\n' :: wrap n (cs.drop width)
      s.print (String.ofList (if width = 0 then text else wrap (text.length + 1) text))

end Workload.Shell.Programs
