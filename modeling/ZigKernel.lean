import ZigKernel.LangAct
import ZigKernel.LangInt
import ZigKernel.LangSlice
import ZigKernel.LibCursor
import ZigKernel.LibLedger
import ZigKernel.LibLittleEndian
import ZigKernel.LibPaging
import ZigKernel.LibRing
import ZigKernel.LibRuns
import ZigKernel.LibTable
import ZigKernel.LibSpans
import ZigKernel.LibScan
import ZigKernel.LibUtf8
import ZigKernel.LibJson
import ZigKernel.LibJsonSound
import ZigKernel.NativeBootInfo
import ZigKernel.NativeBootInfoGate
import ZigKernel.NativeMemmap
import ZigKernel.NativeMemmapSound
import ZigKernel.NativeMemmapCapacity
import ZigKernel.NativeInitrdNewc
import ZigKernel.NativeInitrdNewcSound
import ZigKernel.BootHandoff
import ZigKernel.BootHandoffSound
import ZigKernel.BootElf64
import ZigKernel.BootElf64Sound
import ZigKernel.NativePmm
import ZigKernel.NativePmmSound
import ZigKernel.NativeUserElf
import ZigKernel.NativeUserElfSound
import ZigKernel.NativeUserElfAccept
import ZigKernel.NativeUserElfOrder
import ZigKernel.NativeUserVm
import ZigKernel.NativeUserVmRelease
import ZigKernel.NativeUserVmBuild
import ZigKernel.NativeUserVmLedger
import ZigKernel.NativeUserVmPmm
import ZigKernel.NativeUserVmUnwind
import ZigKernel.NativeUserVmLayout
import ZigKernel.NativeUserVmWalk
import ZigKernel.NativeUserVmPages
import ZigKernel.NativeUserVmSpace
import ZigKernel.NativeUserVmImage
import ZigKernel.NativeUserVmSupply
import ZigKernel.NativeUserVmBudget
import ZigKernel.NativeUserVmFit
import ZigKernel.SupervisorSession
import ZigKernel.SupervisorWorkspace
import ZigKernel.SupervisorApi
import ZigKernel.SupervisorEffects
import ZigKernel.SupervisorInvariant
import ZigKernel.SupervisorService
import ZigKernel.SupervisorStep
import ZigKernel.SupervisorLifetime
import ZigKernel.SupervisorCoherence
import ZigKernel.SupervisorOwnership
import ZigKernel.SupervisorFiles
import ZigKernel.SupervisorEvents
import ZigKernel.SupervisorReplay
import ZigKernel.SupervisorAdmission
import ZigKernel.SupervisorFencing
import ZigKernel.SupervisorCanonical
import ZigKernel.SupervisorCanonicalSound
import ZigKernel.SupervisorFrame
import ZigKernel.HelperPipe
import ZigKernel.SupervisorFingerprint
import ZigKernel.SchemaGateAgree
import ZigKernel.LibJsonPrint
import ZigKernel.HelperProtocol
import ZigKernel.HelperTransportRuns
import ZigKernel.LibFirsts
import ZigKernel.SupervisorCapabilities
import ZigKernel.SupervisorCapabilitiesSound
import ZigKernel.EngineCapabilities
import ZigKernel.KernelConfinement
import ZigKernel.KernelPidLock
import ZigKernel.KernelProcTable
import ZigKernel.KernelMmMappings
import ZigKernel.KernelMmFrames
import ZigKernel.KernelNamespace
import ZigKernel.KernelJailRuns
import ZigKernel.KernelQuota
import ZigKernel.LibLexical
import ZigKernel.SupervisorConfinement
import ZigKernel.ClientDecimal
import ZigKernel.BootEbsRetry
import ZigKernel.BootEbsRetrySound
import ZigKernel.KernelCapture
import ZigKernel.KernelPageCache
import ZigKernel.KernelPageCacheRuns
import ZigKernel.SupervisorExpiry
import ZigKernel.LibCrc
import ZigKernel.SupervisorChecksum
import ZigKernel.KernelNet
import ZigKernel.KernelNetCalls
import ZigKernel.KernelNetRuns
import ZigKernel.KernelSocket
import ZigKernel.KernelSocketCalls
import ZigKernel.KernelSocketRuns
import ZigKernel.KernelTcp
import ZigKernel.KernelTcpRuns
import ZigKernel.KernelUserString
import ZigKernel.KernelTime
import ZigKernel.KernelTimers
import ZigKernel.KernelTimersRuns
import ZigKernel.KernelSched
import ZigKernel.KernelSchedCalls
import ZigKernel.KernelSchedRuns
import ZigKernel.KernelUserStack
import ZigKernel.KernelUserStackSound
import ZigKernel.KernelElf64
import ZigKernel.KernelElf64Sound
import ZigKernel.KernelElf64Load
import ZigKernel.NativeIdt
import ZigKernel.NativeIdtRuns
import ZigKernel.LangExcept
import ZigKernel.QualifyFat16
import ZigKernel.QualifyFat16Sound
import ZigKernel.NativeUserVmOffers
import ZigKernel.KernelPipe
import ZigKernel.KernelBlkQueue
import ZigKernel.KernelTcpTable
import ZigKernel.KernelSignal
import ZigKernel.KernelSignalRuns
import ZigKernel.KernelCursor
import ZigKernel.KernelCursorRuns
import ZigKernel.KernelDescriptors
import ZigKernel.KernelDescriptorsRuns
import ZigKernel.LangWrites
import ZigKernel.ToolsMkesp
import ZigKernel.ToolsMkespLayout
import ZigKernel.ToolsMkespImage
import ZigKernel.QualifyFat16Reading
import ZigKernel.ToolsMkespNames
import ZigKernel.ToolsMkespSound
import ZigKernel.ToolsMkespMain
import ZigKernel.BootPages
import ZigKernel.NativePaging
import ZigKernel.NativeVmProbe
import ZigKernel.LibPagingEntries
import ZigKernel.NativePagingSound
import ZigKernel.NativePagingTemplate
import ZigKernel.NativeIsolation
import ZigKernel.BootUserSpace
import ZigKernel.KernelRwLock
