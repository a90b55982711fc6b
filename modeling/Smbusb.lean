import Smbusb.Logic.Program
import Smbusb.Logic.Frame
import Smbusb.Logic.Memory
import Smbusb.Logic.Chunks
import Smbusb.Logic.Runs
import Smbusb.Logic.Fuel
import Smbusb.Logic.Crc
import Smbusb.Firmware.Controller
import Smbusb.Firmware.Machine
import Smbusb.Firmware.Requests
import Smbusb.Firmware.Sending
import Smbusb.Firmware.Receiving
import Smbusb.Firmware.ReadBlock
import Smbusb.Firmware.ReadBlockData
import Smbusb.Firmware.WriteBlock
import Smbusb.Firmware.Transaction
import Smbusb.Firmware.TransactionRead
import Smbusb.Firmware.Bounds
import Smbusb.Firmware.Probing
import Smbusb.Firmware.Transfer
import Smbusb.Firmware.ReadRequests
import Smbusb.Firmware.ErrorDetection
import Smbusb.Firmware.Effects
import Smbusb.Firmware.Release
import Smbusb.Firmware.Genuine
import Smbusb.Firmware.PecCheck
import Smbusb.Firmware.WriteFrames
import Smbusb.Firmware.Cursors
import Smbusb.Host.Usb
import Smbusb.Host.Fx2lp
import Smbusb.Host.WriteBlock
import Smbusb.Host.ReadBlock
import Smbusb.Host.BlockCalls
import Smbusb.Host.Transaction
import Smbusb.Host.TransactionRead
import Smbusb.Host.TransactionPec
import Smbusb.Host.SplitReads
import Smbusb.Host.Bounds
import Smbusb.Host.PecReport
import Smbusb.Host.BlockFailures
import Smbusb.Host.StaleSequences
import Smbusb.Host.Termination
import Smbusb.Host.I2cdev
import Smbusb.Host.TwoDrivers
import Smbusb.Host.Options
import Smbusb.Host.Numbers
import Smbusb.Host.Library
import Smbusb.Host.Opening
import Smbusb.Host.Lifecycle
import Smbusb.Host.HexLine
import Smbusb.Host.Upload
import Smbusb.Host.OptionGrammar
import Smbusb.Host.AnyDevice
import Smbusb.Host.ShortTransfers
import Smbusb.Tools.Scan
import Smbusb.Tools.ScanAddress
import Smbusb.Tools.ScanDrivers
import Smbusb.Tools.Flasher
import Smbusb.Tools.Bq8030
import Smbusb.Tools.Bq8030Flash
import Smbusb.Tools.Bq8030Run
import Smbusb.Tools.Bq8030Verify
import Smbusb.Tools.Renesas
import Smbusb.Tools.R2j240
import Smbusb.Tools.M37512
import Smbusb.Tools.RenesasRun
import Smbusb.Tools.Guard
import Smbusb.Tools.LgcChecksum
import Smbusb.Tools.Bursts
import Smbusb.Tools.FlashTransfers
import Smbusb.Tools.FlashReads
import Smbusb.Tools.FlashRoundTrip
import Smbusb.Logic.Pieces
import Smbusb.Tools.RamTransfers
import Smbusb.Tools.RamRoundTrip
import Smbusb.Tools.EraseCheck
import Smbusb.Tools.StopsAtFailure
import Smbusb.Host.BlockReceive
import Smbusb.Host.OpenRetries
import Smbusb.Host.HexDigits
import Smbusb.Tools.Comm
import Smbusb.Tools.CommWrite
import Smbusb.Host.HexRecords
import Smbusb.Host.UploadRecords
import Smbusb.Logic.CrcPolynomial
import Smbusb.Firmware.PecPolynomial
import Smbusb.Host.OptionRoundTrip
import Smbusb.Tools.OptionRouting
import Smbusb.Host.Sequences
import Smbusb.Logic.Objects
import Smbusb.Firmware.BusDevice
import Smbusb.Firmware.DeviceFrames
import Smbusb.Firmware.DeviceReads
import Smbusb.Host.DeviceCalls
import Smbusb.Host.DeviceRuns
import Smbusb.Firmware.DeviceProbes
import Smbusb.Tools.ScanDevice
import Smbusb.Host.I2cDevice
import Smbusb.Host.ByHand
import Smbusb.Host.ReadByHand
import Smbusb.Host.I2cTransfers
import Smbusb.Host.I2cBus
import Smbusb.Host.I2cCalls
import Smbusb.Host.I2cRuns
import Smbusb.Logic.FlagLoop
import Smbusb.Host.MainLoop
import Smbusb.Host.UploadImage
import Smbusb.Tools.CommDevice
