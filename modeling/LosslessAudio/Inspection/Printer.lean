import LosslessAudio.Inspection

/-!
# Printing reports

A report is printed as a table or as YAML.  None of the texts in it can be mistaken for a value of
another kind, so YAML needs no quotes.
-/

set_option autoImplicit false

namespace LosslessAudio.Report

/-- Lines as one text: each ends with a line feed. -/
def joinLines (lines : List String) : String :=
  String.join (lines.map (· ++ "\n"))

/-! ## The table -/

/-- How wide the column of names is. -/
def nameWidth : Nat := 26

/-- A line of the table. -/
def row (name value : String) : String :=
  "  " ++ name ++ String.ofList (List.replicate (nameWidth - name.length) ' ') ++ value

/-- The rows on the header. -/
def headerRows (report : Report) : List String :=
  let info := report.info
  [ row "Format version" (toString info.version.toNat),
    row "Sample type" info.sampleType.description,
    row "Channels" (toString info.channels),
    row "Sampling rate" s!"{info.sampleRate} Hz",
    row "Bits per sample" (toString info.bitsPerSample),
    row "Block size" (toString info.blockSize),
    row "Max LPC order" (toString info.maxOrder),
    row "Running mean blocks" (toString info.meanCount.toInt),
    row "WAVE header" s!"{info.waveHeader.length} bytes" ]

/-- The size of the input in thousands of bytes. -/
def kilobytes (report : Report) : String :=
  Text.fixed 2 ((UInt64.ofNat report.inputBytes).toFloat / 1000)

/-- How many thousand bits of input a second of the stream takes; nothing if it plays no time. -/
def bitRate? (report : Report) (totals : Totals) : Option String :=
  let seconds := report.seconds totals
  if 0 < seconds then
    some (Text.fixed 1 ((UInt64.ofNat report.inputBytes).toFloat * 8 / seconds / 1000))
  else none

/-- The rows on the blocks. -/
def totalsRows (report : Report) (totals : Totals) : List String :=
  let size := report.kilobytes
  [ row "Blocks decoded" (toString totals.blocks),
    row "Samples per channel" (toString totals.samples),
    row "Duration" (report.duration totals),
    row "Size" s!"{size} kB ({report.inputBytes} bytes)" ] ++
  ((report.bitRate? totals).map fun rate ↦ row "Average data rate" s!"{rate} kbps").toList

/-- A report as a table. -/
def table (report : Report) : String :=
  let title := "Shorten Stream Information"
  let head := ["", title, String.ofList (title.toList.map fun _ ↦ '='), ""]
  let summary :=
    match report.totals with
    | none => []
    | some totals => "Analysis Summary" :: report.totalsRows totals ++ [""]
  joinLines (head ++ report.headerRows ++ [""] ++ summary)

/-- What is printed where there is no report. -/
def noHeader : String :=
  joinLines ["No Shorten header found in the input.",
    "This doesn't appear to be a valid Shorten stream."]

/-! ## YAML -/

/-- A line of YAML. -/
def entry (name value : String) : String :=
  name ++ ": " ++ value

/-- The totals in YAML. -/
def totalsEntries (report : Report) (totals : Totals) : List String :=
  [ "totals:",
    "  " ++ entry "blocks" (toString totals.blocks),
    "  " ++ entry "samples_per_channel" (toString totals.samples),
    "  " ++ entry "duration" (report.duration totals) ]

/-- A report in YAML. -/
def yaml (report : Report) : String :=
  let info := report.info
  joinLines <|
    [ entry "version" (toString info.version.toNat),
      entry "sample_type" info.sampleType.description,
      entry "channels" (toString info.channels),
      entry "sample_rate" (toString info.sampleRate),
      entry "bits_per_sample" (toString info.bitsPerSample),
      entry "block_size" (toString info.blockSize),
      entry "max_lpc_order" (toString info.maxOrder),
      entry "nmean" (toString info.meanCount.toInt),
      entry "verbatim_header_bytes" (toString info.waveHeader.length),
      entry "input_bytes" (toString report.inputBytes) ] ++
    (report.totals.map report.totalsEntries).getD []

end LosslessAudio.Report
